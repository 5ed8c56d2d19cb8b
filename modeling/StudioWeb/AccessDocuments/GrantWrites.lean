import StudioWeb.AccessDocuments.OwnerGrant
import StudioWeb.Library.LabelledRuns
import Mathlib.Logic.Function.Basic

/-!
# Calls that set owner grants in one document

A call reads the document of an organization, edits what it read and writes it back whole;
the reads and writes of several calls interleave.  Every error of the read stands for "no
document yet".
-/

namespace StudioWeb
namespace AccessDocuments

open JsonText LabelledRuns List Function
open Scheduler (Uuid)

inductive GrantPc where
  | reading
  /-- The edited document, and the one that was read. -/
  | writing (seen : MetadataRead) (edited : Json)

structure GrantsWorld where
  document : Option Json
  calls : Nat → Option (GrantCall × GrantPc)
  /-- The calls that have answered `Ok`, the latest first. -/
  returned : List GrantCall

inductive GrantAction where
  | starts (call : Nat) (c : GrantCall)
  | reads (call : Nat)
  /-- The read answers an error other than that there is no document. -/
  | readFails (call : Nat)
  | writes (call : Nat)
  | writeFails (call : Nat)

/-- What a read of a document that may not be there answers. -/
def MetadataRead.of : Option Json → MetadataRead
  | some value => .found value
  | none => .absent

/-- The document that a call edits. -/
def documentRead : MetadataRead → Json
  | .found value => value
  | .absent => freshDocument
  | .failed => freshDocument

namespace GrantsWorld

def started (document : Option Json) : GrantsWorld := ⟨document, fun _ => none, []⟩

def goto (w : GrantsWorld) (call : Nat) (c : GrantCall) (pc : GrantPc) : GrantsWorld :=
  { w with calls := Function.update w.calls call (some (c, pc)) }

def finish (w : GrantsWorld) (call : Nat) : GrantsWorld :=
  { w with calls := Function.update w.calls call none }

def edits (w : GrantsWorld) (call : Nat) (c : GrantCall) (seen : MetadataRead) : GrantsWorld :=
  match setOwnerGrant c (documentRead seen) with
  | .ok edited => w.goto call c (.writing seen edited)
  | .error _ => w.finish call

def step (w : GrantsWorld) : GrantAction → Option GrantsWorld
  | .starts call c =>
    match w.calls call with
    | none => some (w.goto call c .reading)
    | some _ => none
  | .reads call =>
    match w.calls call with
    | some (c, .reading) => some (w.edits call c (MetadataRead.of w.document))
    | _ => none
  | .readFails call =>
    match w.calls call with
    | some (c, .reading) => some (w.edits call c .failed)
    | _ => none
  | .writes call =>
    match w.calls call with
    | some (c, .writing _ edited) =>
      some { w.finish call with document := some edited, returned := c :: w.returned }
    | _ => none
  | .writeFails call =>
    match w.calls call with
    | some (_, .writing _ _) => some (w.finish call)
    | _ => none

/-- No read fails, and a call writes where the document is as it read it. -/
def Undisturbed (w : GrantsWorld) : GrantAction → Prop
  | .readFails _ => False
  | .writes call =>
    ∀ c seen edited, w.calls call = some (c, .writing seen edited) →
      seen = MetadataRead.of w.document
  | _ => True

end GrantsWorld

/-- A grant that none of some calls removes. -/
def leaves (calls : List GrantCall) (grant : Json) : Bool := !calls.any fun c => c.removes grant

/-- What some calls, the latest first, leave of a document. -/
structure Written (base : Json) (calls : List GrantCall) (document : Json) : Prop where
  fields :
    ∀ name, name ≠ "roles" → name ≠ "grants" → document.get? name = base.get? name
  roles :
    document.get? "roles" =
      if missingRoles base then some defaultRoles else base.get? "roles"
  others :
    (listed document).filter (leaves calls) = (listed base).filter (leaves calls)
  /-- A key that a call names, and none after it, holds what the call wrote. -/
  named :
    ∀ later c earlier key, calls = later ++ c :: earlier → c.names key = true →
      (∀ d ∈ later, d.names key = false) →
      (listed document).filter (isOwnerGrantOn fun k => k == key) =
        if key = c.subject.key then c.added else []

section Written

variable
  {base document edited : Json}
  {c : GrantCall}
  {calls : List GrantCall}
  {key : String}

theorem missingRoles_congr {d e : Json} (h : d.get? "roles" = e.get? "roles") :
    missingRoles d = missingRoles e := by
  unfold missingRoles
  rw [h]

theorem missingRoles_of_default {d : Json} (h : d.get? "roles" = some defaultRoles) :
    missingRoles d = false := by
  unfold missingRoles
  rw [h]
  rfl

theorem removes_of_isOwnerGrantOn {grant : Json} (hnames : c.names key = true)
    (h : isOwnerGrantOn (fun k => k == key) grant = true) : c.removes grant = true := by
  simp only [isOwnerGrantOn, GrantCall.removes, Bool.and_eq_true] at h ⊢
  obtain ⟨⟨⟨htype, hkey⟩, hscope⟩, hrole⟩ := h
  refine ⟨⟨⟨htype, ?_⟩, hscope⟩, hrole⟩
  cases hsubject : grant.getStr? "subjectId" with
  | none =>
    rw [hsubject] at hkey
    cases hkey
  | some subject =>
    rw [hsubject] at hkey
    have heq : subject = key := by simpa using hkey
    rw [heq]
    exact hnames

theorem not_removes_of_isOwnerGrantOn {grant : Json} (hnames : c.names key = false)
    (h : isOwnerGrantOn (fun k => k == key) grant = true) : c.removes grant = false := by
  simp only [isOwnerGrantOn, Bool.and_eq_true] at h
  obtain ⟨⟨⟨_, hkey⟩, _⟩, _⟩ := h
  cases hsubject : grant.getStr? "subjectId" with
  | none =>
    rw [hsubject] at hkey
    cases hkey
  | some subject =>
    rw [hsubject] at hkey
    have heq : subject = key := by simpa using hkey
    simp [GrantCall.removes, isOwnerGrantOn, hsubject, heq, hnames]

theorem filter_added (p : Json → Bool) :
    c.added.filter p = if p c.ownerGrant then c.added else [] := by
  unfold GrantCall.added
  split
  · cases hp : p c.ownerGrant with
    | true => simp [hp]
    | false => simp [hp]
  · simp

theorem names_key : c.names c.subject.key = true := by
  simp [GrantCall.names]

section

variable (h : setOwnerGrant c document = .ok edited)
include h

theorem filter_named (hnames : c.names key = true) :
    (listed edited).filter (isOwnerGrantOn fun k => k == key) =
      if key = c.subject.key then c.added else [] := by
  have hlisted := listed_setOwnerGrant h
  have hnone :
      ((listed document).filter fun grant => !c.removes grant).filter
        (isOwnerGrantOn fun k => k == key) = [] := by
    refine filter_eq_nil_iff.mpr ?_
    intro grant hgrant howner
    have hkept := (mem_filter.mp hgrant).2
    rw [removes_of_isOwnerGrantOn hnames howner] at hkept
    cases hkept
  rw [hlisted, filter_append, hnone, nil_append, filter_added, isOwnerGrantOn_ownerGrant]
  by_cases hkey : key = c.subject.key
  · simp [hkey]
  · have hne : (c.subject.key == key) = false := by
      simpa using fun h => hkey h.symm
    rw [hne, if_neg hkey]
    rfl

theorem filter_unnamed (hnames : c.names key = false) :
    (listed edited).filter (isOwnerGrantOn fun k => k == key) =
      (listed document).filter (isOwnerGrantOn fun k => k == key) := by
  have hlisted := listed_setOwnerGrant h
  have hkey : (c.subject.key == key) = false := by
    by_contra hkey
    have heq : c.subject.key = key := by simpa using hkey
    rw [← heq, names_key] at hnames
    cases hnames
  have hadded : c.added.filter (isOwnerGrantOn fun k => k == key) = [] := by
    rw [filter_added, isOwnerGrantOn_ownerGrant, hkey]
    rfl
  rw [hlisted, filter_append, hadded, append_nil, filter_filter]
  refine filter_congr ?_
  intro grant _
  cases howner : isOwnerGrantOn (fun k => k == key) grant with
  | false => rfl
  | true =>
    rw [not_removes_of_isOwnerGrantOn hnames howner]
    rfl

theorem filter_leaves :
    (listed edited).filter (leaves (c :: calls)) =
      (listed document).filter (leaves (c :: calls)) := by
  have hlisted := listed_setOwnerGrant h
  have hadded : c.added.filter (leaves (c :: calls)) = [] := by
    have hremoves : c.removes c.ownerGrant = true := by
      rw [GrantCall.removes, isOwnerGrantOn_ownerGrant, names_key]
    rw [filter_added]
    simp [leaves, hremoves]
  rw [hlisted, filter_append, hadded, append_nil, filter_filter]
  refine filter_congr ?_
  intro grant _
  cases hremoves : c.removes grant with
  | true => simp [leaves, hremoves]
  | false => simp

end

theorem filter_leaves_cons {items other : List Json}
    (h : items.filter (leaves calls) = other.filter (leaves calls)) :
    items.filter (leaves (c :: calls)) = other.filter (leaves (c :: calls)) := by
  have hsplit : ∀ list : List Json, list.filter (leaves (c :: calls)) =
        (list.filter (leaves calls)).filter fun grant => !c.removes grant := by
    intro list
    rw [filter_filter]
    refine filter_congr ?_
    intro grant _
    simp [leaves]
  rw [hsplit, hsplit, h]

theorem written_singleton (h : setOwnerGrant c base = .ok edited) : Written base [c] edited := by
  obtain ⟨_, _, hfields, hroles, _⟩ := setOwnerGrant_ok h
  refine ⟨hfields, hroles, filter_leaves h, ?_⟩
  intro later d earlier key hcalls hnames hlater
  cases later with
  | nil =>
    cases hcalls
    exact filter_named h hnames
  | cons =>
    have hlength := congrArg List.length hcalls
    simp at hlength

/-- **One more call.** -/
theorem Written.cons (hwritten : Written base calls document)
    (h : setOwnerGrant c document = .ok edited) : Written base (c :: calls) edited := by
  obtain ⟨_, _, hfields, hroles, _⟩ := setOwnerGrant_ok h
  refine ⟨?_, ?_, ?_, ?_⟩
  · intro name hroles' hgrants
    rw [hfields name hroles' hgrants, hwritten.fields name hroles' hgrants]
  · have hbefore := hwritten.roles
    by_cases hmissing : missingRoles base = true
    · rw [if_pos hmissing] at hbefore ⊢
      rw [hroles, missingRoles_of_default hbefore, if_neg (by decide), hbefore]
    · rw [if_neg hmissing] at hbefore ⊢
      rw [hroles, missingRoles_congr hbefore, if_neg hmissing, hbefore]
  · rw [filter_leaves h]
    exact filter_leaves_cons hwritten.others
  · intro later d earlier key hcalls hnames hlater
    cases later with
    | nil =>
      cases hcalls
      exact filter_named h hnames
    | cons _ rest =>
      obtain ⟨rfl, hrest⟩ := cons_eq_cons.mp hcalls
      rw [filter_unnamed h (hlater c mem_cons_self)]
      exact hwritten.named rest d earlier key hrest hnames
        fun f hf => hlater f (mem_cons_of_mem _ hf)

end Written

namespace GrantsWorld

/-- What the calls that have answered leave of a document, and what the others will write. -/
structure GrantsInv (document : Option Json) (w : GrantsWorld) : Prop where
  untouched : w.returned = [] → w.document = document
  written :
    w.returned ≠ [] → ∃ d, w.document = some d ∧ Written (document.getD freshDocument) w.returned d
  edited :
    ∀ call c seen edited, w.calls call = some (c, .writing seen edited) →
      setOwnerGrant c (documentRead seen) = .ok edited

section Runs

variable
  {document : Option Json}
  {w t : GrantsWorld}
  {a : GrantAction}
  {call : Nat}
  {c : GrantCall}
  {pc : GrantPc}
  {seen : MetadataRead}

section

variable (h : GrantsInv document w)
include h

theorem GrantsInv.goto (hpc :
      ∀ seen edited, pc = .writing seen edited →
        setOwnerGrant c (documentRead seen) = .ok edited) :
    GrantsInv document (w.goto call c pc) := by
  refine ⟨h.untouched, h.written, ?_⟩
  intro other d seen edited hother
  by_cases heq : other = call
  · subst heq
    simp only [GrantsWorld.goto, update_self, Option.some.injEq, Prod.mk.injEq] at hother
    obtain ⟨rfl, hwriting⟩ := hother
    exact hpc seen edited hwriting
  · simp only [GrantsWorld.goto, update_of_ne heq] at hother
    exact h.edited other d seen edited hother

theorem GrantsInv.finish : GrantsInv document (w.finish call) := by
  refine ⟨h.untouched, h.written, ?_⟩
  intro other d seen edited hother
  by_cases heq : other = call
  · subst heq
    simp [GrantsWorld.finish] at hother
  · simp only [GrantsWorld.finish, update_of_ne heq] at hother
    exact h.edited other d seen edited hother

theorem GrantsInv.edits : GrantsInv document (w.edits call c seen) := by
  unfold GrantsWorld.edits
  split
  · next _ hedit =>
    refine h.goto ?_
    rintro _ _ ⟨⟩
    exact hedit
  · exact h.finish

omit h in
theorem documentRead_of (document : Option Json) :
    documentRead (MetadataRead.of document) = document.getD freshDocument := by
  cases document with
  | none => rfl
  | some => rfl

/-- **Step**: what is written, where no read fails and nothing is written in between. -/
theorem GrantsInv.preserved (ht : w.step a = some t)
    (hundisturbed : w.Undisturbed a) : GrantsInv document t := by
  cases a with
  | starts =>
    simp only [step] at ht
    split at ht
    · cases ht
      exact h.goto (by rintro _ _ ⟨⟩)
    · cases ht
  | reads =>
    simp only [step] at ht
    split at ht
    · cases ht
      exact h.edits
    · cases ht
  | readFails => cases hundisturbed
  | writes call =>
    simp only [step] at ht
    split at ht
    · next c seen edited hcall =>
      cases ht
      have hedit := h.edited call c seen edited hcall
      have hseen : seen = MetadataRead.of w.document := hundisturbed c seen edited hcall
      rw [hseen, documentRead_of] at hedit
      refine ⟨fun hnone => absurd hnone (cons_ne_nil _ _), ?_, h.finish.edited⟩
      intro _
      refine ⟨edited, rfl, ?_⟩
      by_cases hfirst : w.returned = []
      · rw [h.untouched hfirst] at hedit
        simp only [hfirst]
        exact written_singleton hedit
      · obtain ⟨d, hd, hwritten⟩ := h.written hfirst
        rw [hd] at hedit
        exact hwritten.cons hedit
    · cases ht
  | writeFails =>
    simp only [step] at ht
    split at ht
    · cases ht
      exact h.finish
    · cases ht

end

/-- **The grants that were last written, and nothing else**, where no read fails and no
write comes between a call's read and its write. -/
theorem undisturbed_grants_written (document : Option Json) (actions : List GrantAction)
    (hundisturbed :
      EveryStep GrantsWorld.step (fun w a _ => w.Undisturbed a) (started document) actions) :
    ∀ w, runActions GrantsWorld.step (started document) actions = some w →
      (w.returned = [] → w.document = document) ∧ (w.returned ≠ [] →
          ∃ d, w.document = some d ∧ Written (document.getD freshDocument) w.returned d) := by
  intro w hrun
  have hstarted : GrantsInv document (started document) := by
    refine ⟨fun _ => rfl, fun hne => absurd rfl hne, ?_⟩
    rintro call c seen edited ⟨⟩
  have hinv : GrantsInv document w :=
    runActions_invariant (fun w a t hinv ht hu => GrantsInv.preserved hinv ht hu)
      hstarted hundisturbed hrun
  exact ⟨hinv.untouched, hinv.written⟩

private def annCall : GrantCall :=
  ⟨⟨"acme"⟩, "Acme", ⟨"ann", "Ann", ["ann@idp"]⟩, true, ⟨"1"⟩⟩

private def withRoles : Json :=
  .obj [("grants", .arr [.obj [("roleKey", .str "editor"), ("subjectId", .str "bob")]]),
    ("model", .str "roles"), ("roles", .arr [roleJson "editor" "Editor" ["document.edit"]])]

private def annAlone : List GrantAction :=
  [.starts 0 annCall, .reads 0, .writes 0]

theorem undisturbed_grants_written_alone :
    ∃ w d, runActions GrantsWorld.step (started (some withRoles)) annAlone = some w ∧
      w.document = some d ∧
      listed d = listed withRoles ++ [annCall.ownerGrant] ∧
      Written withRoles [annCall] d := by
  have hundisturbed :
      EveryStep GrantsWorld.step (fun w a _ => w.Undisturbed a) (started (some withRoles))
        annAlone := by
    refine (everyStep_cons_iff rfl).mpr ⟨trivial, ?_⟩
    refine (everyStep_cons_iff rfl).mpr ⟨trivial, ?_⟩
    refine (everyStep_cons_iff rfl).mpr ⟨?_, trivial⟩
    rintro c seen edited ⟨⟩
    rfl
  have hrun : runActions GrantsWorld.step (started (some withRoles)) annAlone =
      some (reached GrantsWorld.step (started (some withRoles)) annAlone) :=
    runActions_reached (by decide)
  obtain ⟨d, hd, hwritten⟩ := (undisturbed_grants_written _ _ hundisturbed _ hrun).2 (by decide)
  refine ⟨_, d, hrun, hd, ?_, hwritten⟩
  cases hd
  rfl

private def withoutRoles : Json :=
  .obj [("grants", .arr []), ("model", .str "roles")]

/-- A document without roles gets the ladder by a grant. -/
theorem ladder_is_seeded :
    ∃ w d, runActions GrantsWorld.step (started (some withoutRoles)) annAlone = some w ∧
      w.returned = [annCall] ∧
      w.document = some d ∧
      withoutRoles.get? "roles" = none ∧
      d.get? "roles" = some defaultRoles ∧
      ¬ (∀ name, name ≠ "grants" → d.get? name = withoutRoles.get? name) := by
  have hrun : runActions GrantsWorld.step (started (some withoutRoles)) annAlone =
      some (reached GrantsWorld.step (started (some withoutRoles)) annAlone) :=
    runActions_reached (by decide)
  refine ⟨_, _, hrun, rfl, rfl, rfl, rfl, ?_⟩
  intro hsame
  have hroles := hsame "roles" (by decide)
  cases hroles

end Runs

end GrantsWorld

end AccessDocuments
end StudioWeb
