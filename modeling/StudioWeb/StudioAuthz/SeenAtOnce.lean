import Mathlib.Order.Basic
import Mathlib.Order.Nat
import StudioWeb.StudioAuthz.ConfigCache

/-!
# An allowed write of an access config is seen at once

Every write that the PDP allows by ownership, or by `access.manage`, moves the generation;
a write of a platform administrator, or under an unrestricted token, does not.  A decision
samples the generation after it began, so it never uses a copy that is of a generation
before the write.
-/

namespace StudioWeb
namespace StudioAuthz

open LabelledRuns
open Scheduler JsonText AccessDocuments

namespace RolesPc

/-- The generation that was sampled, while the cache is still asked or written. -/
def generation? : RolesPc → Option Nat
  | .looking generation => some generation
  | .reading generation => some generation
  | .keeping generation _ => some generation
  | _ => none

def copy? : RolesPc → Option ConfigCopy
  | .keeping _ copy => some copy
  | .naming copy => some copy
  | .decided copy _ => some copy
  | _ => none

end RolesPc

namespace PdpWorld

/-- No decision uses a copy that was read before a write that was allowed before it began. -/
def SeenAtOnce (lineage : Uuid → List Uuid) (w : PdpWorld) : Prop :=
  ∀ call request tid privilege begun pc copy,
    w.calls call = some (.roles request tid privilege begun pc) →
    pc.copy? = some copy →
    ∀ x ∈ w.allowed, x.organization ∈ lineage tid → x.moment < begun → x.moment < copy.takenAt

/-- The organization of a write that a statement allows without moving the generation. -/
def unmovedWrite (parseUuid : String → Option Uuid) (w : PdpWorld) : PdpAction → Option Uuid
  | .starts _ request =>
    match Plan.forRequest parseUuid request with
    | .clamp _ =>
      if request.isAccessConfigWrite then resourceOwnerTenant parseUuid request else none
    | _ => none
  | .checksAdmin call true =>
    match w.calls call with
    | some (.writes _ organization .adminCheck) => some organization
    | _ => none
  | _ => none

/-- A statement moves the generation. -/
def moves (w : PdpWorld) : PdpAction → Bool
  | .runs call =>
    match w.calls call with
    | some (.writes _ _ (.judging subjects read)) => mayWriteAccessConfig subjects read
    | _ => false
  | _ => false

/-- Nobody holds a copy of what an organization's document says that is used under the
generation as it is: neither the cache nor a decision that is about to keep one. -/
structure NoCopyHeld
    (lineage : Uuid → List Uuid) (w : PdpWorld) (organization : Uuid) : Prop where
  kept :
    ∀ tid c, w.configs tid = some c → organization ∈ lineage tid →
      c.isFresh w.now w.generation = false
  taken :
    ∀ call request tid privilege begun generation copy,
      w.calls call = some (.roles request tid privilege begun (.keeping generation copy)) →
      organization ∈ lineage tid →
      copy.read ≠ .unreadable →
      generation ≠ w.generation

/-- A write that does not move the generation finds no copy held, and one that moves it
finds a generation left. -/
structure Noticed
    (parseUuid : String → Option Uuid) (lineage : Uuid → List Uuid) (w : PdpWorld)
    (a : PdpAction) : Prop where
  unmoved :
    ∀ organization, w.unmovedWrite parseUuid a = some organization →
      NoCopyHeld lineage w organization
  moved : w.moves a = true → w.generation + 1 < 2 ^ 64

/-- A kept copy from before a write is of a generation before it, or too old. -/
structure KeptInv
    (lineage : Uuid → List Uuid) (w : PdpWorld) (tid : Uuid) (c : CachedConfig) : Prop where
  sampled : c.generation ≤ w.generation
  older :
    ∀ x ∈ w.allowed, x.organization ∈ lineage tid → c.copy.takenAt ≤ x.moment →
      c.generation < x.generation ∨ ACCESS_CONFIG_TTL ≤ w.now - c.readAt

/-- What a decision of the role path holds. -/
structure RolesInv
    (lineage : Uuid → List Uuid) (w : PdpWorld) (tid : Uuid) (begun : Nat)
    (pc : RolesPc) : Prop where
  earlier : begun < w.moment
  sampled : ∀ g, pc.generation? = some g → g ≤ w.generation
  later : ∀ g, pc.generation? = some g → ∀ x ∈ w.allowed, x.moment < begun → x.generation ≤ g
  seen :
    ∀ copy, pc.copy? = some copy → ∀ x ∈ w.allowed, x.organization ∈ lineage tid →
      x.moment < begun → x.moment < copy.takenAt
  keeping :
    ∀ g copy, pc = .keeping g copy → copy.read ≠ .unreadable → ∀ x ∈ w.allowed,
      x.organization ∈ lineage tid → copy.takenAt ≤ x.moment → g < x.generation

structure CacheInv (lineage : Uuid → List Uuid) (w : PdpWorld) : Prop where
  past : ∀ x ∈ w.allowed, x.moment < w.moment
  marks : ∀ x ∈ w.allowed, x.generation ≤ w.generation
  kept : ∀ tid c, w.configs tid = some c → KeptInv lineage w tid c
  roles :
    ∀ call request tid privilege begun pc,
      w.calls call = some (.roles request tid privilege begun pc) →
      RolesInv lineage w tid begun pc

/-- Neither a write nor the generation. -/
structure Calm (w t : PdpWorld) : Prop where
  generation : t.generation = w.generation
  allowed : t.allowed = w.allowed
  now : w.now ≤ t.now
  moment : w.moment ≤ t.moment

section Invariant

variable
  {parseUuid : String → Option Uuid}
  {lineage : Uuid → List Uuid}
  {w t : PdpWorld}
  {a : PdpAction}
  {call begun : Nat}
  {request : EvaluationRequest}
  {tid organization : Uuid}
  {privilege : String}
  {c : CachedConfig}
  {pc : RolesPc}

theorem KeptInv.calm (h : KeptInv lineage w tid c) (hcalm : Calm w t) :
    KeptInv lineage t tid c := by
  refine ⟨?_, ?_⟩
  · rw [hcalm.generation]
    exact h.sampled
  · intro x hx horg hbefore
    rw [hcalm.allowed] at hx
    rcases h.older x hx horg hbefore with hgeneration | hold
    · exact .inl hgeneration
    · have hnow := hcalm.now
      exact .inr (by omega)

theorem RolesInv.calm (h : RolesInv lineage w tid begun pc) (hcalm : Calm w t) :
    RolesInv lineage t tid begun pc := by
  refine ⟨h.earlier.trans_le hcalm.moment, ?_, ?_, ?_, ?_⟩
  · rw [hcalm.generation]
    exact h.sampled
  · rw [hcalm.allowed]
    exact h.later
  · rw [hcalm.allowed]
    exact h.seen
  · rw [hcalm.allowed]
    exact h.keeping

section

variable (h : CacheInv lineage w)
include h

theorem CacheInv.calm (hcalm : Calm w t) (hkept :
      ∀ tid c, t.configs tid = some c → w.configs tid = some c ∨ KeptInv lineage w tid c)
    (hroles :
      ∀ call request tid privilege begun pc,
        t.calls call = some (.roles request tid privilege begun pc) →
        w.calls call = some (.roles request tid privilege begun pc) ∨
          RolesInv lineage t tid begun pc) :
    CacheInv lineage t := by
  refine ⟨?_, ?_, ?_, ?_⟩
  · rw [hcalm.allowed]
    intro x hx
    exact (h.past x hx).trans_le hcalm.moment
  · rw [hcalm.allowed, hcalm.generation]
    exact h.marks
  · intro tid c hc
    rcases hkept tid c hc with hold | hnew
    · exact (h.kept tid c hold).calm hcalm
    · exact hnew.calm hcalm
  · intro call request tid privilege begun pc hcall
    rcases hroles call request tid privilege begun pc hcall with hold | hnew
    · exact (h.roles _ _ _ _ _ _ hold).calm hcalm
    · exact hnew

theorem CacheInv.ticks :
    CacheInv lineage { w with moment := w.moment + 1 } :=
  h.calm ⟨rfl, rfl, le_rfl, Nat.le_succ _⟩ (fun _ _ hc => .inl hc)
    (fun _ _ _ _ _ _ hcall => .inl hcall)

theorem CacheInv.goto_other {next : PdpCall}
    (hnext : ∀ request tid privilege begun pc, next ≠ .roles request tid privilege begun pc) :
    CacheInv lineage (w.goto call next) := by
  refine h.calm ⟨rfl, rfl, le_rfl, le_rfl⟩ (fun _ _ hc => .inl hc) ?_
  intro other request tid privilege begun pc hother
  by_cases hother' : other = call
  · subst hother'
    simp only [goto, Function.update_self, Option.some.injEq] at hother
    exact absurd hother (hnext _ _ _ _ _)
  · simp only [goto, Function.update_of_ne hother'] at hother
    exact .inl hother

theorem CacheInv.finish : CacheInv lineage (w.finish call) := by
  refine h.calm ⟨rfl, rfl, le_rfl, le_rfl⟩ (fun _ _ hc => .inl hc) ?_
  intro other request tid privilege begun pc hother
  by_cases hother' : other = call
  · subst hother'
    simp [PdpWorld.finish] at hother
  · simp only [PdpWorld.finish, Function.update_of_ne hother'] at hother
    exact .inl hother

theorem CacheInv.goto_roles (hroles : RolesInv lineage w tid begun pc) :
    CacheInv lineage (w.goto call (.roles request tid privilege begun pc)) := by
  refine h.calm ⟨rfl, rfl, le_rfl, le_rfl⟩ (fun _ _ hc => .inl hc) ?_
  intro other request tid privilege begun pc hother
  by_cases hother' : other = call
  · subst hother'
    simp only [goto, Function.update_self, Option.some.injEq, PdpCall.roles.injEq] at hother
    obtain ⟨_, rfl, _, rfl, rfl⟩ := hother
    exact .inr (hroles.calm ⟨rfl, rfl, le_rfl, le_rfl⟩)
  · simp only [goto, Function.update_of_ne hother'] at hother
    exact .inl hother

end

variable {generation : Nat}

theorem CacheInv.allows (h : CacheInv lineage w) (hgeneration : w.generation ≤ generation) (hkept :
      ∀ tid c, w.configs tid = some c → organization ∈ lineage tid →
        c.generation < generation ∨ ACCESS_CONFIG_TTL ≤ w.now - c.readAt)
    (htaken :
      ∀ call request tid privilege begun g copy,
        w.calls call = some (.roles request tid privilege begun (.keeping g copy)) →
        organization ∈ lineage tid →
        copy.read ≠ .unreadable →
        g < generation) :
    CacheInv lineage
      { ({ w with generation := generation } : PdpWorld).allows call organization with
        moment := w.moment + 1 } := by
  refine ⟨?_, ?_, ?_, ?_⟩
  · intro x hx
    rcases List.mem_cons.mp hx with rfl | hx
    · exact Nat.lt_succ_self _
    · exact (h.past x hx).trans (Nat.lt_succ_self _)
  · intro x hx
    rcases List.mem_cons.mp hx with rfl | hx
    · exact le_rfl
    · exact (h.marks x hx).trans hgeneration
  · intro tid c hc
    refine ⟨(h.kept tid c hc).sampled.trans hgeneration, ?_⟩
    intro x hx horg hbefore
    rcases List.mem_cons.mp hx with rfl | hx
    · exact hkept tid c hc horg
    · exact (h.kept tid c hc).older x hx horg hbefore
  · intro other request tid privilege begun pc hother
    have hold : w.calls other = some (.roles request tid privilege begun pc) := by
      by_cases hother' : other = call
      · subst hother'
        simp [PdpWorld.allows, goto] at hother
      · simpa only [PdpWorld.allows, goto, Function.update_of_ne hother'] using hother
    have hroles := h.roles other request tid privilege begun pc hold
    have hbegun := hroles.earlier
    refine ⟨hbegun.trans (Nat.lt_succ_self _), ?_, ?_, ?_, ?_⟩
    · intro g hg
      exact (hroles.sampled g hg).trans hgeneration
    · intro g hg x hx hbefore
      rcases List.mem_cons.mp hx with rfl | hx
      · simp only at hbefore
        omega
      · exact hroles.later g hg x hx hbefore
    · intro copy hcopy x hx horg hbefore
      rcases List.mem_cons.mp hx with rfl | hx
      · simp only at hbefore
        omega
      · exact hroles.seen copy hcopy x hx horg hbefore
    · intro g copy hpc hread x hx horg hbefore
      rcases List.mem_cons.mp hx with rfl | hx
      · subst hpc
        exact htaken other request tid privilege begun g copy hold horg hread
      · exact hroles.keeping g copy hpc hread x hx horg hbefore

theorem CacheInv.allows_unmoved (h : CacheInv lineage w)
    (hnone : NoCopyHeld lineage w organization) :
    CacheInv lineage { w.allows call organization with moment := w.moment + 1 } := by
  refine h.allows le_rfl ?_ ?_
  · intro tid c hc horg
    have hfresh := hnone.kept tid c hc horg
    have hsampled := (h.kept tid c hc).sampled
    simp only [CachedConfig.isFresh, Bool.and_eq_false_iff, beq_eq_false_iff_ne,
      decide_eq_false_iff_not, not_lt] at hfresh
    rcases hfresh with hne | hold
    · exact .inl (lt_of_le_of_ne hsampled hne)
    · exact .inr hold
  · intro call request tid privilege begun g copy hcall horg hread
    have hne := hnone.taken call request tid privilege begun g copy hcall horg hread
    exact lt_of_le_of_ne ((h.roles _ _ _ _ _ _ hcall).sampled g rfl) hne

theorem CacheInv.allows_moved (h : CacheInv lineage w) (hleft : w.generation + 1 < 2 ^ 64) :
    CacheInv lineage { w.bumped.allows call organization with moment := w.moment + 1 } := by
  have hgeneration : (w.generation + 1) % 2 ^ 64 = w.generation + 1 := Nat.mod_eq_of_lt hleft
  unfold bumped
  rw [hgeneration]
  refine h.allows (Nat.le_succ _) ?_ ?_
  · intro tid c hc _
    exact .inl (Nat.lt_succ_of_le (h.kept tid c hc).sampled)
  · intro call request tid privilege begun g copy hcall _ _
    exact Nat.lt_succ_of_le ((h.roles _ _ _ _ _ _ hcall).sampled g rfl)

theorem hit_eq_some {copy : ConfigCopy} (h : w.hit tid generation = some copy) :
    ∃ c, w.configs tid = some c ∧ c.generation = generation ∧
      w.now - c.readAt < ACCESS_CONFIG_TTL ∧ c.copy = copy := by
  unfold hit at h
  split at h
  · next c hc =>
    split at h
    · next hfresh =>
      simp only [CachedConfig.isFresh, Bool.and_eq_true, beq_iff_eq, decide_eq_true_eq] at hfresh
      exact ⟨c, hc, hfresh.1, hfresh.2, Option.some.inj h⟩
    · cases h
  · cases h

theorem RolesInv.taken (h : CacheInv lineage w) (hroles : RolesInv lineage w tid begun pc) (hpc : pc.generation? = some generation) (read : ConfigRead) :
    RolesInv lineage w tid begun (.keeping generation ⟨read, w.moment⟩) := by
  refine ⟨hroles.earlier, ?_, ?_, ?_, ?_⟩
  · rintro g ⟨⟩
    exact hroles.sampled generation hpc
  · rintro g ⟨⟩
    exact hroles.later generation hpc
  · rintro copy ⟨⟩ x hx _ _
    exact h.past x hx
  · rintro g copy ⟨⟩ _ x hx _ hbefore
    exact absurd (h.past x hx) (not_lt.mpr hbefore)

theorem RolesInv.uses (hroles : RolesInv lineage w tid begun pc) {copy : ConfigCopy}
    (hcopy : pc.copy? = some copy) : RolesInv lineage w tid begun (.naming copy) := by
  refine ⟨hroles.earlier, by rintro _ ⟨⟩, by rintro _ ⟨⟩, ?_, by rintro _ _ ⟨⟩⟩
  rintro _ ⟨⟩
  exact hroles.seen copy hcopy

end Invariant

section Steps

variable
  {parseUuid : String → Option Uuid}
  {lineage : Uuid → List Uuid}
  {w t : PdpWorld}
  {a : PdpAction}
  {call begun : Nat}
  {request : EvaluationRequest}
  {tid organization : Uuid}
  {privilege : String}
  {pc : RolesPc}

theorem cacheInv_of_runsRoles (h : CacheInv lineage w)
    (hcall : w.calls call = some (.roles request tid privilege begun pc))
    (ht : w.runsRoles lineage call request tid privilege begun pc = some t) :
    CacheInv lineage t := by
  have hroles := h.roles call request tid privilege begun pc hcall
  cases pc with
  | sampling =>
    cases ht
    refine h.goto_roles ⟨hroles.earlier, ?_, ?_, by rintro _ ⟨⟩, by rintro _ _ ⟨⟩⟩
    · rintro g ⟨⟩
      exact le_rfl
    · rintro g ⟨⟩ x hx _
      exact h.marks x hx
  | looking generation =>
    simp only [runsRoles] at ht
    split at ht
    · next _ hhit =>
      cases ht
      obtain ⟨c, hc, hgeneration, hyoung, rfl⟩ := hit_eq_some hhit
      refine h.goto_roles ⟨hroles.earlier, by rintro _ ⟨⟩, by rintro _ ⟨⟩, ?_, by rintro _ _ ⟨⟩⟩
      rintro _ ⟨⟩ x hx horg hbefore
      by_contra hstale
      have hlater := hroles.later generation rfl x hx hbefore
      rcases (h.kept tid c hc).older x hx horg (not_lt.mp hstale) with hless | hold
      · omega
      · omega
    · cases ht
      exact h.goto_roles ⟨hroles.earlier, hroles.sampled, hroles.later, by rintro _ ⟨⟩,
        by rintro _ _ ⟨⟩⟩
  | reading =>
    cases ht
    exact h.goto_roles (hroles.taken h rfl _)
  | keeping generation copy =>
    cases ht
    have hkept : CacheInv lineage (if copy.read = .unreadable then w
          else w.keep tid ⟨w.now, generation, copy⟩) := by
      split
      · exact h
      · next hread =>
        refine h.calm ⟨rfl, rfl, le_rfl, le_rfl⟩ ?_ (fun _ _ _ _ _ _ hcall => .inl hcall)
        intro tid' c hc
        by_cases htid : tid' = tid
        · subst htid
          simp only [keep, Function.update_self, Option.some.injEq] at hc
          subst hc
          refine .inr ⟨hroles.sampled generation rfl, ?_⟩
          intro x hx horg hbefore
          exact .inl (hroles.keeping generation copy rfl hread x hx horg hbefore)
        · simp only [keep, Function.update_of_ne htid] at hc
          exact .inl hc
    have hafter : RolesInv lineage
        (if copy.read = .unreadable then w else w.keep tid ⟨w.now, generation, copy⟩) tid begun
        (.keeping generation copy) := by
      split
      · exact hroles
      · exact hroles.calm ⟨rfl, rfl, le_rfl, le_rfl⟩
    exact hkept.goto_roles (hafter.uses rfl)
  | naming => cases ht
  | decided => cases ht

/-- **Step**: what is held of copies, where a write that does not move the generation finds
none. -/
theorem CacheInv.preserved (h : CacheInv lineage w) (ht : w.step parseUuid lineage a = some t)
    (hnoticed : Noticed parseUuid lineage w a) : CacheInv lineage t := by
  obtain ⟨v, hv, rfl⟩ := Option.map_eq_some_iff.mp ht
  cases a with
  | starts =>
    simp only [takes, starts] at hv
    split at hv
    · cases hv
    · split at hv
      · cases hv
        exact h.ticks
      · next _ hplan =>
        split at hv
        · next hwrite =>
          split at hv
          · next organization horg =>
            cases hv
            refine h.allows_unmoved (hnoticed.unmoved organization ?_)
            simp only [unmovedWrite, hplan, hwrite, if_true, horg]
          · cases hv
            exact h.ticks
        · cases hv
          exact h.ticks
      · cases hv
        exact (h.goto_other (by simp)).ticks
      · cases hv
        exact h.ticks.goto_roles ⟨Nat.lt_succ_self _, by rintro _ ⟨⟩, by rintro _ ⟨⟩,
          by rintro _ ⟨⟩, by rintro _ _ ⟨⟩⟩
  | runs =>
    simp only [takes, runs] at hv
    split at hv
    · next _ _ _ _ _ hcall =>
      exact (cacheInv_of_runsRoles h hcall hv).ticks
    · next _ _ pc hcall =>
      cases pc with
      | reading =>
        cases hv
        exact (h.goto_other (by simp)).ticks
      | judging =>
        simp only [runsWrite] at hv
        split at hv
        · next hmay =>
          cases hv
          refine h.allows_moved (hnoticed.moved ?_)
          simp only [moves, hcall, hmay]
        · cases hv
          exact h.finish.ticks
      | adminCheck => cases hv
      | naming => cases hv
    · cases hv
  | fails =>
    simp only [takes, fails] at hv
    split at hv
    · next _ _ _ _ _ hcall =>
      cases hv
      exact (h.goto_roles ((h.roles _ _ _ _ _ _ hcall).taken h rfl _)).ticks
    · cases hv
      exact (h.goto_other (by simp)).ticks
    · cases hv
  | checksAdmin _ admin =>
    simp only [takes, checksAdmin] at hv
    split at hv
    · next _ organization hcall =>
      cases admin with
      | true =>
        cases hv
        refine h.allows_unmoved (hnoticed.unmoved organization ?_)
        simp only [unmovedWrite, hcall]
      | false =>
        cases hv
        exact (h.goto_other (by simp)).ticks
    · cases hv
  | names =>
    simp only [takes, names] at hv
    split at hv
    · next _ _ _ _ copy hcall =>
      cases hv
      have hroles := h.roles _ _ _ _ _ _ hcall
      refine (h.goto_roles ⟨hroles.earlier, by rintro _ ⟨⟩, by rintro _ ⟨⟩, ?_,
        by rintro _ _ ⟨⟩⟩).ticks
      rintro _ ⟨⟩
      exact hroles.seen copy rfl
    · cases hv
      exact (h.goto_other (by simp)).ticks
    · cases hv
  | answers =>
    simp only [takes, answers] at hv
    split at hv
    · cases hv
      exact h.finish.ticks
    · cases hv
  | commits _ document =>
    simp only [takes, commits] at hv
    split at hv
    · next organization _ =>
      cases hv
      have hwritten : CacheInv lineage (w.setDocument organization document) :=
        h.calm ⟨rfl, rfl, le_rfl, le_rfl⟩ (fun _ _ hc => .inl hc)
          (fun _ _ _ _ _ _ hcall => .inl hcall)
      exact hwritten.finish.ticks
    · cases hv
  | writesAround =>
    cases hv
    exact h.calm ⟨rfl, rfl, le_rfl, Nat.le_succ _⟩ (fun _ _ hc => .inl hc)
      (fun _ _ _ _ _ _ hcall => .inl hcall)
  | waits =>
    cases hv
    exact h.calm ⟨rfl, rfl, Nat.le_add_right _ _, Nat.le_succ _⟩ (fun _ _ hc => .inl hc)
      (fun _ _ _ _ _ _ hcall => .inl hcall)

theorem cacheInv_started (documents : Uuid → Option Json) (now : Nat) :
    CacheInv lineage (started documents now) := by
  refine ⟨?_, ?_, ?_, ?_⟩
  · rintro x ⟨⟩
  · rintro x ⟨⟩
  · rintro tid c ⟨⟩
  · rintro call request tid privilege begun pc ⟨⟩

/-- **A write that was allowed is seen at once**, where a write that does not move the
generation finds no copy of the document held. -/
theorem noticed_writes_seen_at_once (parseUuid : String → Option Uuid) (lineage : Uuid → List Uuid)
    (documents : Uuid → Option Json) (now : Nat) (actions : List PdpAction) (hnoticed :
      EveryStep (PdpWorld.step parseUuid lineage) (fun w a _ => Noticed parseUuid lineage w a)
        (started documents now) actions) :
    ∀ w, runActions (PdpWorld.step parseUuid lineage) (started documents now) actions = some w →
      SeenAtOnce lineage w := by
  intro w hrun
  have hinv : CacheInv lineage w :=
    runActions_invariant
      (fun w a t (hinv : CacheInv lineage w) hstep hnoticed => hinv.preserved hstep hnoticed)
      (cacheInv_started documents now) hnoticed hrun
  intro call request tid privilege begun pc copy hcall hcopy x hx horg hbefore
  exact (hinv.roles call request tid privilege begun pc hcall).seen copy hcopy x hx horg hbefore

end Steps

def movesOnly (parseUuid : String → Option Uuid) (w : PdpWorld) (a : PdpAction) : Bool :=
  (w.unmovedWrite parseUuid a).isNone && (!w.moves a || decide (w.generation + 1 < 2 ^ 64))

theorem noticed_of_movesOnly {parseUuid : String → Option Uuid} {lineage : Uuid → List Uuid}
    {w : PdpWorld} {a : PdpAction} (h : w.movesOnly parseUuid a = true) :
    Noticed parseUuid lineage w a := by
  obtain ⟨hunmoved, hmoved⟩ := Bool.and_eq_true_iff.mp h
  refine ⟨?_, ?_⟩
  · intro organization hwrite
    rw [hwrite] at hunmoved
    cases hunmoved
  · intro hmoves
    simpa [hmoves] using hmoved

private def acme : Uuid := ⟨"acme"⟩

private def question : EvaluationRequest :=
  ⟨⟨⟨"ann"⟩, []⟩, "read", ⟨DOMAIN_OBJECT_RESOURCE, []⟩, ⟨some (some acme), [], false, [], []⟩⟩

/-- A write of its access config. -/
private def rewrite (writer : String) : EvaluationRequest :=
  ⟨⟨⟨writer⟩, []⟩, "write", ⟨"gts.cf.core.am.tenant_metadata.v1~",
      [(AM_TYPE_ID_PROPERTY, .str ACCESS_METADATA_TYPE), (.ownerTenantId, .str "acme")]⟩,
    ⟨some (some ⟨"home"⟩), [], false, [], []⟩⟩

private def annOwns : Json :=
  .obj [("grants", .arr [.obj [("roleKey", .str "owner"), ("scopeId", .str "acme"),
      ("scopeType", .str "org"), ("subjectId", .str "ann"), ("subjectType", .str "member")]]),
    ("model", .str "roles")]

private def nobodyOwns : Json :=
  .obj [("grants", .arr []), ("model", .str "roles")]

private def atStart : PdpWorld :=
  started (fun tid => if tid = acme then some annOwns else none) 0

private def pdpStep : PdpWorld → PdpAction → Option PdpWorld :=
  PdpWorld.step (fun text => some ⟨text⟩) fun tid => [tid]

private def keepsCopy : List PdpAction :=
  [.starts 0 question, .runs 0, .runs 0, .runs 0, .runs 0, .names 0 none, .answers 0]

/-- The owner gives up the grant, and is asked about again. -/
private def ownerWrites : List PdpAction :=
  keepsCopy ++ [.starts 1 (rewrite "ann"), .checksAdmin 1 false, .names 1 none, .runs 1, .runs 1,
      .commits 1 (some nobodyOwns),
      .starts 2 question, .runs 2, .runs 2, .runs 2, .runs 2, .names 2 none]

theorem noticed_writes_seen_at_once_of_owner :
    ∃ w, runActions (PdpWorld.step (fun text => some ⟨text⟩) fun tid => [tid]) atStart ownerWrites =
        some w ∧
      w.allowed = [⟨acme, 11, 1⟩] ∧
      (∃ copy, w.calls 2 = some (.roles question acme "domain.view" 13 (.decided copy .deny))) ∧
      SeenAtOnce (fun tid => [tid]) w := by
  have hnoticed :
      EveryStep (PdpWorld.step (fun text => some ⟨text⟩) fun tid => [tid])
        (fun w a _ => Noticed (fun text => some ⟨text⟩) (fun tid => [tid]) w a)
        atStart ownerWrites := by
    have hpasses :
        passes pdpStep (movesOnly fun text => some ⟨text⟩) atStart ownerWrites = true := by
      decide
    refine EveryStep.of_passes ?_ hpasses
    intro w a _ h
    exact noticed_of_movesOnly h
  have hrun : runActions pdpStep atStart ownerWrites = some (reached pdpStep atStart ownerWrites) :=
    runActions_reached (by decide)
  exact ⟨_, hrun, by decide, ⟨_, rfl⟩,
    noticed_writes_seen_at_once _ _ _ _ ownerWrites hnoticed _ hrun⟩

/-- A platform administrator takes the grant from the owner, who is asked about again. -/
private def adminWrites : List PdpAction :=
  keepsCopy ++ [.starts 1 (rewrite "root"), .checksAdmin 1 true, .commits 1 (some nobodyOwns),
      .starts 2 question, .runs 2, .runs 2, .names 2 none]

/-- The second decision allows what the document that was written refuses. -/
theorem admin_write_unseen :
    ∃ w copy,
      runActions (PdpWorld.step (fun text => some ⟨text⟩) fun tid => [tid]) atStart adminWrites =
        some w ∧
      w.allowed = [⟨acme, 8, 0⟩] ∧
      w.calls 2 = some (.roles question acme "domain.view" 10 (.decided copy .clamp)) ∧
      copy.takenAt = 3 ∧
      StudioAuthz.decide (fun text => some ⟨text⟩) ["ann"]
        (readAccessConfig (w.resolve (fun tid => [tid]) acme)) [] "domain.view" = .deny ∧
      ¬ SeenAtOnce (fun tid => [tid]) w := by
  have hrun : runActions pdpStep atStart adminWrites = some (reached pdpStep atStart adminWrites) :=
    runActions_reached (by decide)
  refine ⟨_, ⟨_, 3⟩, hrun, by decide, rfl, rfl, by decide, ?_⟩
  intro hseen
  have hcopy := hseen 2 question acme "domain.view" 10 _ _ rfl rfl ⟨acme, 8, 0⟩ (by decide)
    (by decide) (by decide)
  revert hcopy
  decide

end PdpWorld

end StudioAuthz
end StudioWeb
