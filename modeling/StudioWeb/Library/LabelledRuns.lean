import Mathlib.Data.List.Basic

/-!
# Runs of a labelled transition system

A system is a partial step function `σ → α → Option σ`: in a state, an action
either leads to one next state or is not enabled.  All nondeterminism sits in
the choice of the actions, so an interleaving of several parties is a list of
actions.

A run executes a list of actions from the left and fails as soon as one of them
is not enabled.  `EveryStep P` says that `P` holds of every step of a run; it is
both how a condition on a run is stated and how a property of its steps is.
-/

namespace StudioWeb
namespace LabelledRuns

open Option

universe u v

variable {σ : Type u} {α : Type v}

/-- Execute the actions from the left; `none` when one of them is not enabled. -/
def runActions (step : σ → α → Option σ) : σ → List α → Option σ
  | s, [] => some s
  | s, a :: rest =>
    match step s a with
    | none => none
    | some t => runActions step t rest

/-- `P` holds of every step that the run takes. -/
def EveryStep (step : σ → α → Option σ) (P : σ → α → σ → Prop) :
    σ → List α → Prop
  | _, [] => True
  | s, a :: rest =>
    ∀ t, step s a = some t → P s a t ∧ EveryStep step P t rest

@[simp] theorem runActions_nil (step : σ → α → Option σ) (s : σ) :
    runActions step s [] = some s := by
  rfl

variable {step : σ → α → Option σ}

theorem runActions_cons_iff {s u : σ} {a : α} {rest : List α} :
    runActions step s (a :: rest) = some u ↔
    ∃ t, step s a = some t ∧ runActions step t rest = some u := by
  cases hstep : step s a with
  | none =>
    simp [runActions, hstep]
  | some =>
    simp [runActions, hstep]

theorem runActions_append_iff {s u : σ} {first rest : List α} :
    runActions step s (first ++ rest) = some u ↔
    ∃ t, runActions step s first = some t ∧
      runActions step t rest = some u := by
  induction first generalizing s with
  | nil =>
    simp
  | cons _ _ ih =>
    rw [List.cons_append, runActions_cons_iff]
    constructor
    · rintro ⟨t, hstep, hrest⟩
      obtain ⟨m, hm, hu⟩ := ih.mp hrest
      exact ⟨m, runActions_cons_iff.mpr ⟨t, hstep, hm⟩, hu⟩
    · rintro ⟨m, hm, hu⟩
      obtain ⟨t, hstep, hrest⟩ := runActions_cons_iff.mp hm
      exact ⟨t, hstep, ih.mpr ⟨m, hrest, hu⟩⟩

theorem everyStep_cons_iff {P : σ → α → σ → Prop} {s t : σ} {a : α}
    {rest : List α} (hstep : step s a = some t) :
    EveryStep step P s (a :: rest) ↔ P s a t ∧ EveryStep step P t rest := by
  constructor
  · intro h
    exact h t hstep
  · intro h u hu
    rw [hstep] at hu
    cases hu
    exact h

/-- A step property of a run of given actions can be computed. -/
instance decidableEveryStep {step : σ → α → Option σ} {P : σ → α → σ → Prop}
    [∀ s a t, Decidable (P s a t)] :
    ∀ (s : σ) (actions : List α), Decidable (EveryStep step P s actions)
  | _, [] => isTrue trivial
  | s, a :: rest =>
    match hstep : step s a with
    | none => isTrue (fun t ht => by rw [hstep] at ht; cases ht)
    | some t =>
      have := @decidableEveryStep step P _ t rest
      decidable_of_iff _ (everyStep_cons_iff hstep).symm

theorem EveryStep.of_forall {step : σ → α → Option σ} {P : σ → α → σ → Prop}
    (h : ∀ s a t, step s a = some t → P s a t) :
    ∀ (s : σ) (actions : List α), EveryStep step P s actions
  | _, [] => trivial
  | s, a :: rest => fun t hstep => ⟨h s a t hstep, EveryStep.of_forall h t rest⟩

theorem EveryStep.of_mem {step : σ → α → Option σ} {P : σ → α → σ → Prop} :
    ∀ {s : σ} {actions : List α}, (∀ a ∈ actions, ∀ s t, P s a t) → EveryStep step P s actions
  | _, [], _ => trivial
  | _, a :: _, h => fun t _ =>
    ⟨h a List.mem_cons_self _ t, EveryStep.of_mem fun b hb => h b (List.mem_cons_of_mem _ hb)⟩

theorem EveryStep.of_append {step : σ → α → Option σ} {P : σ → α → σ → Prop} :
    ∀ {s : σ} {first rest : List α}, EveryStep step P s (first ++ rest) → EveryStep step P s first
  | _, [], _, _ => trivial
  | _, _ :: _, _, h => fun t hstep => ⟨(h t hstep).1, EveryStep.of_append (h t hstep).2⟩

theorem everyStep_append_iff {step : σ → α → Option σ} {P : σ → α → σ → Prop} :
    ∀ {s t : σ} {first rest : List α}, runActions step s first = some t →
      (EveryStep step P s (first ++ rest) ↔ EveryStep step P s first ∧ EveryStep step P t rest)
  | s, t, [], rest, hrun => by
    simp only [runActions_nil, some.injEq] at hrun
    subst hrun
    simp [EveryStep]
  | s, t, a :: first, rest, hrun => by
    obtain ⟨m, hstep, hfirst⟩ := runActions_cons_iff.mp hrun
    rw [List.cons_append, everyStep_cons_iff hstep, everyStep_cons_iff hstep,
      everyStep_append_iff hfirst, and_assoc]

theorem EveryStep.and {step : σ → α → Option σ} {P Q : σ → α → σ → Prop} :
    ∀ {s : σ} {actions : List α}, EveryStep step P s actions → EveryStep step Q s actions →
      EveryStep step (fun s a t => P s a t ∧ Q s a t) s actions
  | _, [], _, _ => trivial
  | _, _ :: _, hP, hQ => fun t hstep =>
    ⟨⟨(hP t hstep).1, (hQ t hstep).1⟩, EveryStep.and (hP t hstep).2 (hQ t hstep).2⟩

def passes (step : σ → α → Option σ) (check : σ → α → Bool) : σ → List α → Bool
  | _, [] => true
  | s, a :: rest =>
    check s a &&
      match step s a with
      | none => true
      | some t => passes step check t rest

theorem EveryStep.of_passes {step : σ → α → Option σ} {P : σ → α → σ → Prop} {check : σ → α → Bool}
    (hcheck : ∀ s a t, check s a = true → P s a t) :
    ∀ {s : σ} {actions : List α}, passes step check s actions = true → EveryStep step P s actions
  | _, [], _ => trivial
  | s, a :: rest, h => by
    intro t hstep
    obtain ⟨hhere, hrest⟩ := Bool.and_eq_true_iff.mp h
    simp only [hstep] at hrest
    exact ⟨hcheck s a t hhere, EveryStep.of_passes hcheck hrest⟩

section Invariant

variable {step : σ → α → Option σ}
variable {Admitted : σ → α → σ → Prop} {Inv : σ → Prop}

/-- **The invariant rule**: what every admitted step preserves holds after every
run of admitted steps. -/
theorem runActions_invariant (hpres : ∀ s a t, Inv s → step s a = some t → Admitted s a t → Inv t) :
    ∀ {s u : σ} {actions : List α}, Inv s → EveryStep step Admitted s actions →
      runActions step s actions = some u →
      Inv u
  | s, u, [], hs, _, hrun => by
    simp only [runActions_nil, some.injEq] at hrun
    exact hrun ▸ hs
  | s, u, a :: rest, hs, hevery, hrun => by
    obtain ⟨t, hstep, hrest⟩ := runActions_cons_iff.mp hrun
    obtain ⟨hadm, hlater⟩ := hevery t hstep
    exact runActions_invariant hpres (hpres s a t hs hstep hadm) hlater hrest

theorem runActions_preserves (hpres : ∀ s a t, Inv s → step s a = some t → Inv t)
    {s u : σ} {actions : List α} (hs : Inv s) (hrun : runActions step s actions = some u) :
    Inv u := by
  have hadm : EveryStep step (fun _ _ _ => True) s actions :=
    EveryStep.of_forall (fun _ _ _ _ => trivial) s actions
  exact runActions_invariant (fun s a t hs hstep _ => hpres s a t hs hstep) hs hadm hrun

/-- **The step rule**: a property of one step that follows from the invariant
before it holds of every step of a run of admitted steps. -/
theorem EveryStep.of_invariant {P : σ → α → σ → Prop}
    (hpres : ∀ s a t, Inv s → step s a = some t → Admitted s a t → Inv t)
    (hstepP : ∀ s a t, Inv s → step s a = some t → Admitted s a t → P s a t) :
    ∀ {s : σ} {actions : List α}, Inv s → EveryStep step Admitted s actions →
      EveryStep step P s actions
  | _, [], _, _ => trivial
  | s, a :: rest, hs, hevery => by
    intro t hstep
    obtain ⟨hadm, hlater⟩ := hevery t hstep
    exact ⟨hstepP s a t hs hstep hadm,
      EveryStep.of_invariant hpres hstepP (hpres s a t hs hstep hadm) hlater⟩

end Invariant

/-- The step at which a predicate becomes true. -/
theorem exists_step_of_becomes {step : σ → α → Option σ} {Q : σ → Prop} :
    ∀ {s u : σ} {actions : List α}, ¬ Q s → runActions step s actions = some u → Q u →
      ∃ before a after p q, actions = before ++ a :: after ∧
        runActions step s before = some p ∧ ¬ Q p ∧ step p a = some q ∧ Q q ∧
        runActions step q after = some u
  | s, u, [], hs, hrun, hu => by
    simp only [runActions_nil, some.injEq] at hrun
    exact absurd (hrun ▸ hu) hs
  | s, u, a :: rest, hs, hrun, hu => by
    obtain ⟨t, hstep, hrest⟩ := runActions_cons_iff.mp hrun
    by_cases ht : Q t
    · exact ⟨[], a, rest, s, t, rfl, rfl, hs, hstep, ht, hrest⟩
    · obtain ⟨before, b, after, p, q, hsplit, hp, hnot, hb, hq, hafter⟩ :=
        exists_step_of_becomes ht hrest hu
      refine ⟨a :: before, b, after, p, q, ?_, ?_, hnot, hb, hq, hafter⟩
      · rw [hsplit]
        rfl
      · exact runActions_cons_iff.mpr ⟨t, hstep, hp⟩

section Reached

variable {step : σ → α → Option σ} {s : σ} {first rest : List α}

/-- Where a run of given actions comes to. -/
def reached (step : σ → α → Option σ) (s : σ) (actions : List α) : σ :=
  (runActions step s actions).getD s

theorem runActions_reached (h : (runActions step s first).isSome = true) :
    runActions step s first = some (reached step s first) := by
  obtain ⟨t, ht⟩ := isSome_iff_exists.mp h
  rw [reached, ht]
  rfl

theorem runActions_reached_append (h : (runActions step s (first ++ rest)).isSome = true) :
    runActions step (reached step s first) rest = some (reached step s (first ++ rest)) := by
  obtain ⟨t, hfirst, hrest⟩ := runActions_append_iff.mp (runActions_reached h)
  rw [reached, hfirst]
  exact hrest

end Reached

end LabelledRuns
end StudioWeb
