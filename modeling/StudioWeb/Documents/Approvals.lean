import StudioWeb.Library.CivilTime
import StudioWeb.Library.InsertionMap

/-!
# Who is awaited on a review, and whether it is approved

`documents/approvals.rs`: the verdicts on a request for a review, read by the gate and by the
inbox.  The latest verdict of a person counts; one approval from a stakeholder answers for it.
`str::to_lowercase` is a parameter.
-/

namespace StudioWeb
namespace Documents
namespace Review

open CivilTime List

structure Reviewer where
  person : String
  name : Option String
  required : Bool
  stakeholder : Option String

structure Verdict where
  approver : String
  verdict : String
  security : Bool
  decidedAt : OffsetDateTime

section Readings

variable (lower : String → String)

/-- The maturities below `stable`. -/
def ADVISORY_MATURITIES : List String := ["design", "experimental", "preview"]

def advisory (maturity : Option String) : Bool :=
  maturity.any fun m => ADVISORY_MATURITIES.contains m

def stakeholderKey (name : String) : String := lower (String.ofList (Rust.trim name.toList))

abbrev Latest := InsertionMap String Verdict

/-- One round of the loop of `latest`. -/
def insertLatest (out : Latest) (v : Verdict) : Latest :=
  match out.get? v.approver with
  | some prev => if v.decidedAt < prev.decidedAt then out else out.set v.approver v
  | none => out.set v.approver v

/-- Each reviewer's latest verdict, by person. -/
def latest (verdicts : List Verdict) : Latest := verdicts.foldl insertLatest .empty

def approves (latest : Latest) (r : Reviewer) : Bool :=
  (latest.get? r.person).any fun v => v.verdict = "approved"

/-- The stakeholders that somebody speaking for them approved for. -/
def answered (reviewers : List Reviewer) (latest : Latest) : List String :=
  (reviewers.filter (approves latest)).filterMap fun r =>
    r.stakeholder.map (stakeholderKey lower)

def outstanding (reviewers : List Reviewer) (verdicts : List Verdict) : List Reviewer :=
  let latest := latest verdicts
  let answered := answered lower reviewers latest
  ((reviewers.filter Reviewer.required).filter fun r => !approves latest r).filter fun r =>
    !r.stakeholder.any fun s => answered.contains (stakeholderKey lower s)

structure StakeholderState where
  name : String
  required : Bool
  approvedBy : List String
  asked : List String

def shown (r : Reviewer) : String := r.name.getD r.person

def stateOf (reviewers : List Reviewer) (latest : Latest) (name : String × Bool) :
    StakeholderState :=
  let theirs := reviewers.filter fun r =>
    r.stakeholder.map (stakeholderKey lower) = some (stakeholderKey lower name.1)
  { name := String.ofList (Rust.trim name.1.toList)
    required := name.2
    approvedBy := (theirs.filter (approves latest)).map shown
    asked := theirs.map shown }

/-- The loop of `stakeholders`, with the keys it has seen. -/
def stakeholdersFrom (reviewers : List Reviewer) (latest : Latest) :
    List String → List (String × Bool) → List StakeholderState
  | _, [] => []
  | seen, name :: names =>
    if stakeholderKey lower name.1 = "" ∨ stakeholderKey lower name.1 ∈ seen then
      stakeholdersFrom reviewers latest seen names
    else
      stateOf lower reviewers latest name ::
        stakeholdersFrom reviewers latest (stakeholderKey lower name.1 :: seen) names

def stakeholders (required : List String) (reviewers : List Reviewer)
    (verdicts : List Verdict) : List StakeholderState :=
  let others := (reviewers.filterMap Reviewer.stakeholder).mergeSort fun a b =>
    stakeholderKey lower a ≤ stakeholderKey lower b
  stakeholdersFrom lower reviewers (latest verdicts) []
    (required.map (fun s => (s, true)) ++ others.map fun s => (s, false))

def silentStakeholders (required : List String) (reviewers : List Reviewer)
    (verdicts : List Verdict) : List String :=
  ((stakeholders lower required reviewers verdicts).filter fun s =>
    s.required && s.approvedBy.isEmpty).map StakeholderState.name

def securityConcerns (reviewers : List Reviewer) (verdicts : List Verdict) : List Reviewer :=
  let latest := latest verdicts
  reviewers.filter fun r =>
    (latest.get? r.person).any fun v => v.security && v.verdict = "changes_requested"

def holding (reviewers : List Reviewer) (verdicts : List Verdict) (maturity : Option String)
    (sameVersion : Bool) : List Reviewer :=
  let concerns := securityConcerns reviewers verdicts
  let waiting :=
    if advisory maturity then
      []
    else if sameVersion then
      outstanding lower reviewers verdicts
    else
      reviewers.filter Reviewer.required
  reviewers.filter fun r =>
    (concerns.any fun c => c.person = r.person) || waiting.any fun w => w.person = r.person

def approved (reviewers : List Reviewer) (verdicts : List Verdict) (stakeholders : List String) :
    Bool :=
  if !(securityConcerns reviewers verdicts).isEmpty then
    false
  else if !(silentStakeholders lower stakeholders reviewers verdicts).isEmpty then
    false
  else if reviewers.any Reviewer.required then
    (outstanding lower reviewers verdicts).isEmpty
  else
    (latest verdicts).values.any fun v => v.verdict = "approved"

/-- Past its due date with somebody still awaited. -/
def overdue (dueAt : Option OffsetDateTime) (reviewers : List Reviewer)
    (verdicts : List Verdict) (now : OffsetDateTime) : Bool :=
  (dueAt.any fun due => due < now) && !approved lower reviewers verdicts []

end Readings

section Standing

variable {verdicts : List Verdict} {person : String} {v w : Verdict}

/-- The verdict that stands for a person: theirs, and none of theirs is later. -/
def Stands (verdicts : List Verdict) (person : String) (v : Verdict) : Prop :=
  ∃ before after, verdicts = before ++ v :: after ∧ v.approver = person ∧
    (∀ u ∈ before, u.approver = person → u.decidedAt ≤ v.decidedAt) ∧
    ∀ u ∈ after, u.approver = person → u.decidedAt < v.decidedAt

/-- What `insertLatest` does with the verdict that is kept of a person. -/
def later (person : String) (prev : Option Verdict) (v : Verdict) : Option Verdict :=
  if v.approver = person ∧ ∀ u ∈ prev, u.decidedAt ≤ v.decidedAt then some v else prev

theorem get?_insertLatest (out : Latest) (v : Verdict) (person : String) :
    (insertLatest out v).get? person = later person (out.get? person) v := by
  unfold insertLatest later
  by_cases hperson : v.approver = person
  · subst hperson
    cases hget : out.get? v.approver with
    | none => simp
    | some prev =>
      by_cases hlt : v.decidedAt < prev.decidedAt
      · have hnot : ¬ prev.decidedAt ≤ v.decidedAt := Int.not_le.mpr hlt
        simp [hlt, hnot, hget]
      · have hle : prev.decidedAt ≤ v.decidedAt := Int.not_lt.mp hlt
        simp [hlt, hle]
  · have hset : (out.set v.approver v).get? person = out.get? person := by
      rw [InsertionMap.get?_set, if_neg fun h => hperson h.symm]
    rw [if_neg fun h => hperson h.1]
    split
    · split
      · rfl
      · exact hset
    · exact hset

theorem get?_foldl_insertLatest (out : Latest) (verdicts : List Verdict) (person : String) :
    (verdicts.foldl insertLatest out).get? person =
      verdicts.foldl (later person) (out.get? person) := by
  induction verdicts generalizing out with
  | nil => rfl
  | cons v rest ih =>
    rw [foldl_cons, foldl_cons, ih, get?_insertLatest]

theorem stands_nil : ¬ Stands [] person v := by
  rintro ⟨before, after, heq, _⟩
  exact cons_ne_nil _ _ (append_eq_nil_iff.mp heq.symm).2

theorem stands_cons {rest : List Verdict} :
    Stands (w :: rest) person v ↔ (w = v ∧ v.approver = person ∧
        ∀ u ∈ rest, u.approver = person → u.decidedAt < v.decidedAt) ∨
      (Stands rest person v ∧ (w.approver = person → w.decidedAt ≤ v.decidedAt)) := by
  constructor
  · rintro ⟨before, after, heq, hperson, hbefore, hafter⟩
    cases before with
    | nil =>
      cases heq
      exact .inl ⟨rfl, hperson, hafter⟩
    | cons b before =>
      cases heq
      exact .inr ⟨⟨before, after, rfl, hperson,
        fun u hu => hbefore u (mem_cons_of_mem _ hu), hafter⟩,
        hbefore w mem_cons_self⟩
  · rintro (⟨rfl, hperson, hafter⟩ | ⟨⟨before, after, rfl, hperson, hbefore, hafter⟩, hw⟩)
    · exact ⟨[], rest, rfl, hperson, fun u hu => absurd hu not_mem_nil, hafter⟩
    · refine ⟨w :: before, after, rfl, hperson, ?_, hafter⟩
      intro u hu
      rcases mem_cons.mp hu with rfl | hu
      · exact hw
      · exact hbefore u hu

theorem foldl_later_eq_some_iff (prev : Option Verdict) :
    verdicts.foldl (later person) prev = some v ↔
      (prev = some v ∧ ∀ u ∈ verdicts, u.approver = person → u.decidedAt < v.decidedAt) ∨
      (Stands verdicts person v ∧ ∀ u ∈ prev, u.decidedAt ≤ v.decidedAt) := by
  induction verdicts generalizing prev with
  | nil => simp [stands_nil]
  | cons w rest ih =>
    rw [foldl_cons, ih, stands_cons, forall_mem_cons]
    unfold later
    by_cases htaken : w.approver = person ∧ ∀ u ∈ prev, u.decidedAt ≤ w.decidedAt
    · rw [if_pos htaken]
      obtain ⟨hperson, hle⟩ := htaken
      constructor
      · rintro (⟨hw, hrest⟩ | ⟨hrest, hw⟩)
        · cases hw
          exact .inr ⟨.inl ⟨rfl, hperson, hrest⟩, hle⟩
        · have hwv := hw w rfl
          exact .inr ⟨.inr ⟨hrest, fun _ => hwv⟩, fun u hu => Int.le_trans (hle u hu) hwv⟩
      · rintro (⟨rfl, hw, _⟩ | ⟨⟨rfl, _, hrest⟩ | ⟨hrest, hw⟩, _⟩)
        · exact absurd (hw hperson) (Int.not_lt.mpr (hle v rfl))
        · exact .inl ⟨rfl, hrest⟩
        · refine .inr ⟨hrest, ?_⟩
          rintro u ⟨⟩
          exact hw hperson
    · rw [if_neg htaken]
      constructor
      · rintro (⟨rfl, hrest⟩ | ⟨hrest, hprev⟩)
        · refine .inl ⟨rfl, ?_, hrest⟩
          intro hperson
          refine Int.not_le.mp fun hle => htaken ⟨hperson, ?_⟩
          rintro u ⟨⟩
          exact hle
        · refine .inr ⟨.inr ⟨hrest, ?_⟩, hprev⟩
          intro hperson
          by_contra hlt
          exact htaken ⟨hperson, fun u hu =>
            Int.le_trans (hprev u hu) (Int.le_of_lt (Int.not_le.mp hlt))⟩
      · rintro (⟨hprev, _, hrest⟩ | ⟨⟨rfl, hperson, _⟩ | ⟨hrest, _⟩, hprev⟩)
        · exact .inl ⟨hprev, hrest⟩
        · exact absurd ⟨hperson, hprev⟩ htaken
        · exact .inr ⟨hrest, hprev⟩

/-- The verdict that `latest` keeps of a person is the one that stands. -/
theorem get?_latest : (latest verdicts).get? person = some v ↔ Stands verdicts person v := by
  unfold latest
  rw [get?_foldl_insertLatest, foldl_later_eq_some_iff]
  simp

end Standing

section Agreement

variable {lower : String → String} {reviewers : List Reviewer} {verdicts : List Verdict}
  {required : List String} {r : Reviewer}

def ApprovedBy (verdicts : List Verdict) (person : String) : Prop :=
  ∃ v, Stands verdicts person v ∧ v.verdict = "approved"

/-- The verdict that stands for a person asks for changes over a security concern. -/
def ConcernOf (verdicts : List Verdict) (person : String) : Prop :=
  ∃ v, Stands verdicts person v ∧ v.security = true ∧ v.verdict = "changes_requested"

/-- Somebody asked on behalf of the stakeholder approved. -/
def Answered (lower : String → String) (reviewers : List Reviewer) (verdicts : List Verdict)
    (stakeholder : String) : Prop :=
  ∃ r ∈ reviewers, ApprovedBy verdicts r.person ∧
    r.stakeholder.map (stakeholderKey lower) = some (stakeholderKey lower stakeholder)

theorem approves_iff : approves (latest verdicts) r = true ↔ ApprovedBy verdicts r.person := by
  unfold approves ApprovedBy
  simp only [Option.any_eq_true, decide_eq_true_eq, get?_latest]

theorem mem_securityConcerns_iff :
    r ∈ securityConcerns reviewers verdicts ↔ r ∈ reviewers ∧ ConcernOf verdicts r.person := by
  unfold securityConcerns ConcernOf
  simp only [List.mem_filter, Option.any_eq_true, Bool.and_eq_true, decide_eq_true_eq, get?_latest]

theorem mem_answered_iff {stakeholder : String} :
    stakeholderKey lower stakeholder ∈ answered lower reviewers (latest verdicts) ↔
      Answered lower reviewers verdicts stakeholder := by
  unfold answered Answered
  simp only [mem_filterMap, List.mem_filter, approves_iff, and_assoc]

theorem mem_outstanding_iff :
    r ∈ outstanding lower reviewers verdicts ↔
      r ∈ reviewers ∧ r.required = true ∧ ¬ ApprovedBy verdicts r.person ∧
        ∀ s, r.stakeholder = some s → ¬ Answered lower reviewers verdicts s := by
  unfold outstanding
  simp only [List.mem_filter, ← approves_iff, ← mem_answered_iff, Bool.not_eq_true',
    Bool.not_eq_true, Option.any_eq_false, List.contains_eq_mem, decide_eq_false_iff_not, and_assoc]

theorem mem_stakeholdersFrom {latest : Latest} {st : StakeholderState} {seen : List String}
    {names : List (String × Bool)} (h : st ∈ stakeholdersFrom lower reviewers latest seen names) :
    ∃ name ∈ names, stakeholderKey lower name.1 ≠ "" ∧
      st = stateOf lower reviewers latest name := by
  induction names generalizing seen with
  | nil => cases h
  | cons name names ih =>
    unfold stakeholdersFrom at h
    split at h
    · obtain ⟨name', hmem, hrest⟩ := ih h
      exact ⟨name', mem_cons_of_mem _ hmem, hrest⟩
    · next hnew =>
      rcases mem_cons.mp h with rfl | h
      · exact ⟨name, mem_cons_self, fun hkey => hnew (.inl hkey), rfl⟩
      · obtain ⟨name', hmem, hrest⟩ := ih h
        exact ⟨name', mem_cons_of_mem _ hmem, hrest⟩

theorem exists_mem_stakeholdersFrom {latest : Latest} {name : String × Bool}
    {seen : List String} {front : List (String × Bool)} (back : List (String × Bool))
    (hmem : name ∈ front) (hkey : stakeholderKey lower name.1 ≠ "")
    (hseen : stakeholderKey lower name.1 ∉ seen) :
    ∃ first ∈ front, stakeholderKey lower first.1 = stakeholderKey lower name.1 ∧
      stateOf lower reviewers latest first ∈
        stakeholdersFrom lower reviewers latest seen (front ++ back) := by
  induction front generalizing seen with
  | nil => cases hmem
  | cons first front ih =>
    rw [cons_append]
    unfold stakeholdersFrom
    by_cases hsame : stakeholderKey lower first.1 = stakeholderKey lower name.1
    · refine ⟨first, mem_cons_self, hsame, ?_⟩
      rw [hsame, if_neg (not_or.mpr ⟨hkey, hseen⟩)]
      exact mem_cons_self
    · have hin : name ∈ front := by
        rcases mem_cons.mp hmem with rfl | hin
        · exact absurd rfl hsame
        · exact hin
      split
      · obtain ⟨found, hfound, hrest⟩ := ih hin hseen
        exact ⟨found, mem_cons_of_mem _ hfound, hrest⟩
      · have hother : stakeholderKey lower name.1 ∉ stakeholderKey lower first.1 :: seen :=
          fun hin => (mem_cons.mp hin).elim (fun h => hsame h.symm) hseen
        obtain ⟨found, hfound, heq, hst⟩ := ih hin hother
        exact ⟨found, mem_cons_of_mem _ hfound, heq, mem_cons_of_mem _ hst⟩

theorem approvedBy_stateOf_eq_nil_iff {name : String × Bool} :
    (stateOf lower reviewers (latest verdicts) name).approvedBy = [] ↔
      ¬ Answered lower reviewers verdicts name.1 := by
  unfold stateOf Answered
  simp only [map_eq_nil_iff, filter_eq_nil_iff, List.mem_filter, decide_eq_true_eq,
    ← approves_iff]
  constructor
  · rintro h ⟨r, hr, happroves, hkey⟩
    exact h r ⟨hr, hkey⟩ happroves
  · rintro h r ⟨hr, hkey⟩ happroves
    exact h ⟨r, hr, happroves, hkey⟩

theorem silentStakeholders_eq_nil_iff :
    silentStakeholders lower required reviewers verdicts = [] ↔
      ∀ s ∈ required, stakeholderKey lower s ≠ "" → Answered lower reviewers verdicts s := by
  unfold silentStakeholders stakeholders
  rw [map_eq_nil_iff, filter_eq_nil_iff]
  constructor
  · intro h s hs hkey
    have hmem : (s, true) ∈ required.map fun s => (s, true) := mem_map.mpr ⟨s, hs, rfl⟩
    obtain ⟨first, hfirst, hsame, hst⟩ := exists_mem_stakeholdersFrom
      (((reviewers.filterMap Reviewer.stakeholder).mergeSort fun a b =>
        stakeholderKey lower a ≤ stakeholderKey lower b).map fun s => (s, false))
      hmem hkey not_mem_nil
    obtain ⟨s', _, rfl⟩ := mem_map.mp hfirst
    by_contra hsilent
    refine h _ hst ?_
    have hnil : (stateOf lower reviewers (latest verdicts) (s', true)).approvedBy = [] := by
      refine approvedBy_stateOf_eq_nil_iff.mpr fun hanswered => hsilent ?_
      unfold Answered at hanswered ⊢
      rw [← hsame]
      exact hanswered
    rw [hnil]
    rfl
  · rintro h st hst hsilent
    obtain ⟨name, hname, hkey, rfl⟩ := mem_stakeholdersFrom hst
    obtain ⟨hrequired, hempty⟩ := (Bool.and_eq_true _ _).mp hsilent
    rcases mem_append.mp hname with hname | hname
    · obtain ⟨s, hs, rfl⟩ := mem_map.mp hname
      exact approvedBy_stateOf_eq_nil_iff.mp (isEmpty_iff.mp hempty) (h s hs hkey)
    · obtain ⟨s, _, rfl⟩ := mem_map.mp hname
      cases hrequired

theorem outstanding_eq_nil_iff :
    outstanding lower reviewers verdicts = [] ↔
      ∀ r ∈ reviewers, r.required = true → ApprovedBy verdicts r.person ∨
        ∃ s, r.stakeholder = some s ∧ Answered lower reviewers verdicts s := by
  rw [eq_nil_iff_forall_not_mem]
  refine forall_congr' fun r => ?_
  rw [mem_outstanding_iff]
  constructor
  · intro h hr hrequired
    by_contra hnot
    rw [not_or, not_exists] at hnot
    exact h ⟨hr, hrequired, hnot.1, fun s hs hanswered => hnot.2 s ⟨hs, hanswered⟩⟩
  · rintro h ⟨hr, hrequired, hsilent, hother⟩
    rcases h hr hrequired with happroved | ⟨s, hs, hanswered⟩
    · exact hsilent happroved
    · exact hother s hs hanswered

/-- Nobody holds the stage of the version that is there exactly when nobody has a concern, and
below `stable` or when nobody is awaited. -/
theorem holding_eq_nil_iff {maturity : Option String} :
    holding lower reviewers verdicts maturity true = [] ↔ securityConcerns reviewers verdicts = [] ∧
        (advisory maturity = true ∨ outstanding lower reviewers verdicts = []) := by
  have hnil : ∀ held : List Reviewer, (∀ r ∈ held, r ∈ reviewers) →
      ((∀ r ∈ reviewers, (held.any fun c => c.person = r.person) = false) ↔ held = []) := by
    intro held hsub
    constructor
    · intro h
      refine eq_nil_iff_forall_not_mem.mpr fun r hr => ?_
      exact Bool.false_ne_true ((h r (hsub r hr)).symm.trans
        (List.any_eq_true.mpr ⟨r, hr, decide_eq_true rfl⟩))
    · rintro rfl r _
      rfl
  have hconcerns := hnil (securityConcerns reviewers verdicts) fun r hr =>
    (mem_securityConcerns_iff.mp hr).1
  have hwaiting := hnil (outstanding lower reviewers verdicts) fun r hr =>
    (mem_outstanding_iff.mp hr).1
  unfold holding
  simp only [if_true, filter_eq_nil_iff, Bool.or_eq_true, not_or, Bool.not_eq_true,
    forall_and, hconcerns]
  cases advisory maturity with
  | true => simp
  | false => simp [← hwaiting]

theorem approved_iff :
    approved lower reviewers verdicts required = true ↔ securityConcerns reviewers verdicts = [] ∧
        silentStakeholders lower required reviewers verdicts = [] ∧
        if reviewers.any Reviewer.required then
          outstanding lower reviewers verdicts = []
        else
          ∃ person, ApprovedBy verdicts person := by
  have hvalues : ((latest verdicts).values.any fun v => v.verdict = "approved") = true ↔
      ∃ person, ApprovedBy verdicts person := by
    simp only [List.any_eq_true, InsertionMap.mem_values_iff, decide_eq_true_eq, get?_latest,
      ApprovedBy]
    constructor
    · rintro ⟨v, ⟨p, hv⟩, h⟩
      exact ⟨p, v, hv, h⟩
    · rintro ⟨p, v, hv, h⟩
      exact ⟨v, ⟨p, hv⟩, h⟩
  unfold approved
  split
  · next hconcern => simp_all
  · next hconcern =>
    split
    · next hsilent => simp_all
    · next hsilent =>
      split
      · next hany => simp_all
      · next hany =>
        rw [hvalues]
        simp_all

theorem outstanding_of_approved (h : approved lower reviewers verdicts required = true) :
    outstanding lower reviewers verdicts = [] := by
  obtain ⟨_, _, hrest⟩ := approved_iff.mp h
  split at hrest
  · exact hrest
  · next hnone =>
    refine outstanding_eq_nil_iff.mpr fun r hr hrequired => ?_
    exact absurd (List.any_eq_true.mpr ⟨r, hr, hrequired⟩) hnone

end Agreement

section NewVerdicts

variable {lower : String → String} {reviewers : List Reviewer} {required : List String}
  {before after : List Verdict} {v : Verdict} {person : String}

theorem stands_of_later (hlater : ∀ u ∈ before ++ after, u.approver = v.approver →
    u.decidedAt < v.decidedAt) : Stands (before ++ v :: after) v.approver v :=
  ⟨before, after, rfl, rfl, fun u hu hperson => Int.le_of_lt
    (hlater u (mem_append_left _ hu) hperson),
    fun u hu => hlater u (mem_append_right _ hu)⟩

theorem stands_of_other (hperson : v.approver ≠ person) {w : Verdict} :
    Stands (before ++ v :: after) person w ↔ Stands (before ++ after) person w := by
  have hskip : ∀ prev, later person prev v = prev := fun prev => if_neg fun h => hperson h.1
  rw [← get?_latest, ← get?_latest, latest, latest, get?_foldl_insertLatest,
    get?_foldl_insertLatest, foldl_append, foldl_cons, hskip, foldl_append]

section

variable
  (happroval : v.verdict = "approved")
  (hlater : ∀ u ∈ before ++ after, u.approver = v.approver → u.decidedAt < v.decidedAt)
include happroval hlater

theorem approvedBy_insert
    (h : ApprovedBy (before ++ after) person) : ApprovedBy (before ++ v :: after) person := by
  by_cases hperson : v.approver = person
  · subst hperson
    exact ⟨v, stands_of_later hlater, happroval⟩
  · obtain ⟨w, hstands, hw⟩ := h
    exact ⟨w, (stands_of_other hperson).mpr hstands, hw⟩

theorem concernOf_of_insert
    (h : ConcernOf (before ++ v :: after) person) : ConcernOf (before ++ after) person := by
  obtain ⟨w, hstands, hsecurity, hw⟩ := h
  by_cases hperson : v.approver = person
  · subst hperson
    have hsame := (get?_latest.mpr hstands).symm.trans (get?_latest.mpr (stands_of_later hlater))
    cases hsame
    rw [happroval] at hw
    exact absurd hw (by decide)
  · exact ⟨w, (stands_of_other hperson).mp hstands, hsecurity, hw⟩

theorem answered_insert {s : String} (h : Answered lower reviewers (before ++ after) s) :
    Answered lower reviewers (before ++ v :: after) s := by
  obtain ⟨r, hr, happroved, hkey⟩ := h
  exact ⟨r, hr, approvedBy_insert happroval hlater happroved, hkey⟩

theorem approved_insert (h : approved lower reviewers (before ++ after) required = true) :
    approved lower reviewers (before ++ v :: after) required = true := by
  obtain ⟨hconcern, hsilent, hrest⟩ := approved_iff.mp h
  refine approved_iff.mpr ⟨?_, ?_, ?_⟩
  · rw [eq_nil_iff_forall_not_mem] at hconcern ⊢
    intro r hr
    obtain ⟨hin, hof⟩ := mem_securityConcerns_iff.mp hr
    exact hconcern r (mem_securityConcerns_iff.mpr ⟨hin, concernOf_of_insert happroval hlater hof⟩)
  · rw [silentStakeholders_eq_nil_iff] at hsilent ⊢
    exact fun s hs hkey => answered_insert happroval hlater (hsilent s hs hkey)
  · split at hrest
    · next hany =>
      rw [outstanding_eq_nil_iff] at hrest
      rw [if_pos hany, outstanding_eq_nil_iff]
      intro r hr hrequired
      rcases hrest r hr hrequired with happroved | ⟨s, hs, hanswered⟩
      · exact .inl (approvedBy_insert happroval hlater happroved)
      · exact .inr ⟨s, hs, answered_insert happroval hlater hanswered⟩
    · next hany =>
      obtain ⟨person, hperson⟩ := hrest
      rw [if_neg hany]
      exact ⟨person, approvedBy_insert happroval hlater hperson⟩

end

end NewVerdicts

section Order

variable {verdicts other : List Verdict} {person : String} {v : Verdict}

theorem stands_iff_of_nodup (hnodup : (verdicts.map Verdict.decidedAt).Nodup) :
    Stands verdicts person v ↔ v ∈ verdicts ∧ v.approver = person ∧
        ∀ u ∈ verdicts, u.approver = person → u.decidedAt ≤ v.decidedAt := by
  constructor
  · rintro ⟨before, after, rfl, hperson, hbefore, hafter⟩
    refine ⟨mem_append_right _ mem_cons_self, hperson, ?_⟩
    intro u hu hu'
    rcases mem_append.mp hu with hu | hu
    · exact hbefore u hu hu'
    · rcases mem_cons.mp hu with rfl | hu
      · exact Int.le_refl _
      · exact Int.le_of_lt (hafter u hu hu')
  · rintro ⟨hmem, hperson, hle⟩
    obtain ⟨before, after, rfl⟩ := append_of_mem hmem
    refine ⟨before, after, rfl, hperson,
      fun u hu => hle u (mem_append_left _ hu), fun u hu hu' => ?_⟩
    have hne : u.decidedAt ≠ v.decidedAt := by
      rw [map_append, nodup_append, map_cons, nodup_cons] at hnodup
      intro heq
      exact hnodup.2.1.1 (heq ▸ mem_map_of_mem hu)
    refine Int.lt_iff_le_and_ne.mpr
      ⟨hle u (mem_append_right _ (mem_cons_of_mem _ hu)) hu', fun heq => ?_⟩
    exact hne (OffsetDateTime.ext heq)

theorem get?_latest_perm (hperm : verdicts.Perm other)
    (hnodup : (verdicts.map Verdict.decidedAt).Nodup) (person : String) :
    (latest verdicts).get? person = (latest other).get? person := by
  have hnodup' : (other.map Verdict.decidedAt).Nodup := (hperm.map _).nodup_iff.mp hnodup
  ext v
  simp only [get?_latest, stands_iff_of_nodup hnodup, stands_iff_of_nodup hnodup', hperm.mem_iff]

end Order

section OneReading

variable {lower : String → String} {reviewers : List Reviewer} {verdicts other : List Verdict}
  {required : List String}

structure Request where
  reviewers : List Reviewer
  stakeholders : List String
  dueAt : Option OffsetDateTime

/-- The gate and the inbox read the same of a request. -/
structure OneReading (lower : String → String) (q : Request) (verdicts : List Verdict)
    (now : OffsetDateTime) : Prop where
  free : approved lower q.reviewers verdicts q.stakeholders = true →
    (∀ maturity, holding lower q.reviewers verdicts maturity true = []) ∧
      overdue lower q.dueAt q.reviewers verdicts now = false
  late : (q.dueAt.any fun due => due < now) = true →
    approved lower q.reviewers verdicts q.stakeholders = false →
      overdue lower q.dueAt q.reviewers verdicts now = true
  gate : ∀ maturity, advisory maturity = false → q.reviewers.any Reviewer.required = true →
    (approved lower q.reviewers verdicts q.stakeholders = true ↔
      holding lower q.reviewers verdicts maturity true = [] ∧
        silentStakeholders lower q.stakeholders q.reviewers verdicts = [])
  monotone : ∀ before after v, verdicts = before ++ after → v.verdict = "approved" →
    (∀ u ∈ verdicts, u.approver = v.approver → u.decidedAt < v.decidedAt) →
      approved lower q.reviewers verdicts q.stakeholders = true →
        approved lower q.reviewers (before ++ v :: after) q.stakeholders = true
  orderFree : ∀ other, verdicts.Perm other → (verdicts.map Verdict.decidedAt).Nodup →
    approved lower q.reviewers verdicts q.stakeholders =
        approved lower q.reviewers other q.stakeholders ∧
      (∀ maturity sameVersion, holding lower q.reviewers verdicts maturity sameVersion =
        holding lower q.reviewers other maturity sameVersion) ∧
      overdue lower q.dueAt q.reviewers verdicts now = overdue lower q.dueAt q.reviewers other now ∧
      silentStakeholders lower q.stakeholders q.reviewers verdicts =
        silentStakeholders lower q.stakeholders q.reviewers other

/-- Nobody has a concern, and everybody who is required is answered for: where nobody is, somebody
approved. -/
def SettledByPeople (lower : String → String) (reviewers : List Reviewer)
    (verdicts : List Verdict) : Prop :=
  (∀ r ∈ reviewers, ¬ ConcernOf verdicts r.person) ∧
    (∀ r ∈ reviewers, r.required = true → ApprovedBy verdicts r.person ∨
      ∃ s, r.stakeholder = some s ∧ Answered lower reviewers verdicts s) ∧
    ((∀ r ∈ reviewers, r.required = false) → ∃ person, ApprovedBy verdicts person)

def WaitsForStakeholder (lower : String → String) (q : Request) (verdicts : List Verdict)
    (now : OffsetDateTime) : Prop :=
  (∃ due ∈ q.dueAt, due < now) ∧ SettledByPeople lower q.reviewers verdicts ∧
    ∃ s ∈ q.stakeholders, stakeholderKey lower s ≠ "" ∧ ¬ Answered lower q.reviewers verdicts s

theorem approved_nil_iff :
    approved lower reviewers verdicts [] = true ↔ SettledByPeople lower reviewers verdicts := by
  have hconcern : securityConcerns reviewers verdicts = [] ↔
      ∀ r ∈ reviewers, ¬ ConcernOf verdicts r.person := by
    simp only [eq_nil_iff_forall_not_mem, mem_securityConcerns_iff, not_and]
  have hsilent : silentStakeholders lower [] reviewers verdicts = [] :=
    silentStakeholders_eq_nil_iff.mpr fun _ hs => absurd hs not_mem_nil
  unfold SettledByPeople
  rw [approved_iff, ← hconcern, ← outstanding_eq_nil_iff]
  by_cases hany : reviewers.any Reviewer.required = true
  · obtain ⟨r, hr, hrequired⟩ := List.any_eq_true.mp hany
    have hsome : ¬ ∀ r ∈ reviewers, r.required = false := fun hnone =>
      Bool.false_ne_true ((hnone r hr).symm.trans hrequired)
    simp [hsilent, hany, hsome]
  · have hnone : ∀ r ∈ reviewers, r.required = false := by
      simpa using hany
    have hout : outstanding lower reviewers verdicts = [] :=
      outstanding_eq_nil_iff.mpr fun r hr hrequired =>
        absurd ((hnone r hr).symm.trans hrequired) Bool.false_ne_true
    simp only [hsilent, hany, hout, if_false, true_and, Bool.false_eq_true]
    exact and_congr_right fun _ => ⟨fun h _ => h, fun h => h hnone⟩

theorem silent_iff :
    silentStakeholders lower required reviewers verdicts ≠ [] ↔
      ∃ s ∈ required, stakeholderKey lower s ≠ "" ∧ ¬ Answered lower reviewers verdicts s := by
  rw [Ne, silentStakeholders_eq_nil_iff]
  push Not
  rfl

theorem approved_iff_nil : approved lower reviewers verdicts required = true ↔
    approved lower reviewers verdicts [] = true ∧
      silentStakeholders lower required reviewers verdicts = [] := by
  have hsilent : silentStakeholders lower [] reviewers verdicts = [] :=
    silentStakeholders_eq_nil_iff.mpr fun _ hs => absurd hs not_mem_nil
  simp only [approved_iff, hsilent, true_and]
  exact ⟨fun ⟨h, hs, hr⟩ => ⟨⟨h, hr⟩, hs⟩, fun ⟨⟨h, hr⟩, hs⟩ => ⟨h, hs, hr⟩⟩

theorem overdue_of_late {q : Request} {now : OffsetDateTime} :
    ((q.dueAt.any fun due => due < now) = true →
      approved lower q.reviewers verdicts q.stakeholders = false →
        overdue lower q.dueAt q.reviewers verdicts now = true) ↔
      ¬ WaitsForStakeholder lower q verdicts now := by
  have hlate : (q.dueAt.any fun due => due < now) = true ↔ ∃ due ∈ q.dueAt, due < now := by
    simp only [Option.any_eq_true, decide_eq_true_eq]
    rfl
  unfold WaitsForStakeholder overdue
  rw [← approved_nil_iff, ← silent_iff, ← hlate, ← Bool.not_eq_true, approved_iff_nil]
  cases q.dueAt.any fun due => due < now with
  | false => simp
  | true => cases approved lower q.reviewers verdicts [] <;> simp

theorem readings_perm (hget : ∀ person, (latest verdicts).get? person = (latest other).get? person) :
    approved lower reviewers verdicts required = approved lower reviewers other required ∧
      (∀ maturity sameVersion, holding lower reviewers verdicts maturity sameVersion =
        holding lower reviewers other maturity sameVersion) ∧
      silentStakeholders lower required reviewers verdicts =
        silentStakeholders lower required reviewers other := by
  have happroves : approves (latest verdicts) = approves (latest other) := by
    funext r
    unfold approves
    rw [hget]
  have hconcerns : securityConcerns reviewers verdicts = securityConcerns reviewers other := by
    unfold securityConcerns
    simp only [hget]
  have houtstanding : outstanding lower reviewers verdicts = outstanding lower reviewers other := by
    unfold outstanding answered
    simp only [happroves]
  have hfrom : ∀ seen names, stakeholdersFrom lower reviewers (latest verdicts) seen names =
      stakeholdersFrom lower reviewers (latest other) seen names := by
    intro seen names
    induction names generalizing seen with
    | nil => rfl
    | cons name names ih =>
      unfold stakeholdersFrom stateOf
      rw [ih, ih, happroves]
  have hsilent : silentStakeholders lower required reviewers verdicts =
      silentStakeholders lower required reviewers other := by
    unfold silentStakeholders stakeholders
    rw [hfrom]
  refine ⟨?_, fun maturity sameVersion => ?_, hsilent⟩
  · have hsome : (∃ person, ApprovedBy verdicts person) ↔ ∃ person, ApprovedBy other person := by
      unfold ApprovedBy
      simp only [← get?_latest, hget]
    rw [Bool.eq_iff_iff, approved_iff, approved_iff, hconcerns, hsilent, houtstanding, hsome]
  · unfold holding
    rw [hconcerns, houtstanding]

/-- The readings of a request agree exactly when it does not wait, past its due date, for a
stakeholder alone. -/
theorem one_reading_iff (lower : String → String) (q : Request) (verdicts : List Verdict)
    (now : OffsetDateTime) :
    OneReading lower q verdicts now ↔ ¬ WaitsForStakeholder lower q verdicts now := by
  constructor
  · exact fun h => overdue_of_late.mp h.late
  · intro h
    refine ⟨?_, overdue_of_late.mpr h, ?_, ?_, ?_⟩
    · intro happroved
      refine ⟨fun maturity => ?_, ?_⟩
      · exact holding_eq_nil_iff.mpr ⟨(approved_iff.mp happroved).1,
          .inr (outstanding_of_approved happroved)⟩
      · unfold overdue
        rw [(approved_iff_nil.mp happroved).1, Bool.not_true, Bool.and_false]
    · intro maturity hadvisory hany
      rw [approved_iff, holding_eq_nil_iff, hadvisory, if_pos hany]
      simp only [Bool.false_eq_true, false_or]
      exact ⟨fun ⟨hc, hs, ho⟩ => ⟨⟨hc, ho⟩, hs⟩, fun ⟨⟨hc, ho⟩, hs⟩ => ⟨hc, hs, ho⟩⟩
    · rintro before after v rfl happroval hlater happroved
      exact approved_insert happroval hlater happroved
    · intro other hperm hnodup
      have hget := get?_latest_perm hperm hnodup
      obtain ⟨happroved, hholding, hsilent⟩ := readings_perm hget
      refine ⟨happroved, hholding, ?_, hsilent⟩
      unfold overdue
      rw [(readings_perm hget).1]

/-- Ann has approved, and nobody answers for Acronis. -/
def waitsForAcronis : Request where
  reviewers := [⟨"ann", none, true, none⟩]
  stakeholders := ["Acronis"]
  dueAt := some ⟨0, minNanos_nonpos, maxNanos_nonneg⟩

theorem acronis_is_not_overdue :
    ¬ OneReading (fun s => String.ofList (Rust.toLowercase s.toList)) waitsForAcronis
      [⟨"ann", "approved", false, ⟨0, by decide, by decide⟩⟩] ⟨1, by decide, by decide⟩ := by
  intro h
  have hoverdue := h.late (by decide +kernel) (by decide +kernel)
  revert hoverdue
  decide +kernel

end OneReading

end Review
end Documents
end StudioWeb
