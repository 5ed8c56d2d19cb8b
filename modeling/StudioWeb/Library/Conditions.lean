import Mathlib.Data.Bool.Basic
import Mathlib.Data.List.Basic
import Mathlib.Tactic.Common

/-!
# Conditions on rows

The truth values of SQL are true, false and unknown (`NULL`, here `none`).  A condition
selects a row only when it is true, so an unknown one does not select, and its
negation does not either.

A filter is a list of arms, and an arm is a list of predicates.  A row passes an arm
when every predicate of it holds, and the filter when it passes some arm.
-/

namespace StudioWeb

abbrev Truth := Option Bool

namespace Truth

/-- `AND`: false as soon as one side is. -/
def and : Truth → Truth → Truth
  | some false, _ => some false
  | _, some false => some false
  | some true, t => t
  | t, some true => t
  | none, none => none

/-- `OR`: true as soon as one side is. -/
def or : Truth → Truth → Truth
  | some true, _ => some true
  | _, some true => some true
  | some false, t => t
  | t, some false => t
  | none, none => none

def not : Truth → Truth := Option.map Bool.not

/-- `COALESCE(t, FALSE)`. -/
def coalesce (t : Truth) : Truth := some (t.getD false)

@[simp] theorem and_definite (a b : Bool) : and (some a) (some b) = some (a && b) := by
  cases a <;> cases b <;> rfl

@[simp] theorem or_definite (a b : Bool) : or (some a) (some b) = some (a || b) := by
  cases a <;> cases b <;> rfl

@[simp] theorem not_definite (a : Bool) : not (some a) = some (!a) := by
  rfl

@[simp] theorem false_and (t : Truth) : and (some false) t = some false := by
  cases t <;> rfl

theorem coalesce_and (t u : Truth) : (and t u).getD false = (t.getD false && u.getD false) := by
  cases t with
  | none =>
    cases u with
    | none => rfl
    | some b => cases b <;> rfl
  | some a =>
    cases u with
    | none => cases a <;> rfl
    | some b => cases a <;> cases b <;> rfl

theorem coalesce_or (t u : Truth) : (or t u).getD false = (t.getD false || u.getD false) := by
  cases t with
  | none =>
    cases u with
    | none => rfl
    | some b => cases b <;> rfl
  | some a =>
    cases u with
    | none => cases a <;> rfl
    | some b => cases a <;> cases b <;> rfl

end Truth

open List

universe u v

section ConstraintArms

variable {π : Type u} {ρ : Type v}

/-- The row passes some arm. -/
def Admits (holds : π → ρ → Prop) (arms : List (List π)) (row : ρ) : Prop :=
  ∃ arm ∈ arms, ∀ p ∈ arm, holds p row

variable
  {holds : π → ρ → Prop}
  {row : ρ}

@[simp] theorem not_admits_nil : ¬ Admits holds [] row := by
  rintro ⟨arm, hmem, _⟩
  simp at hmem

theorem admits_append {xs ys : List (List π)} :
    Admits holds (xs ++ ys) row ↔
      Admits holds xs row ∨ Admits holds ys row := by
  simp only [Admits, mem_append, or_and_right, exists_or]

/-- No arm is left open by narrowing each of them. -/
theorem admits_narrowed {arms : List (List π)} {p : π} :
    Admits holds (arms.map fun arm => arm ++ [p]) row ↔
      Admits holds arms row ∧ holds p row := by
  constructor
  · rintro ⟨narrowed, hmem, hall⟩
    obtain ⟨arm, harm, rfl⟩ := mem_map.mp hmem
    have hp : holds p row := hall p (by simp)
    refine ⟨⟨arm, harm, ?_⟩, hp⟩
    intro q hq
    exact hall q (mem_append_left _ hq)
  · rintro ⟨⟨arm, harm, hall⟩, hp⟩
    refine ⟨arm ++ [p], mem_map_of_mem harm, ?_⟩
    intro q hq
    rcases mem_append.mp hq with hq | hq
    · exact hall q hq
    · rw [mem_singleton.mp hq]
      exact hp

end ConstraintArms

end StudioWeb
