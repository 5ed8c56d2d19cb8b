import StudioWeb.Library.RustPrelude

/-!
# Calls that do not panic

`Returns x P` says that a fallible call returns a value that has `P`.  `Safe x P`
also allows an `Err`, and says that the call does not panic.  The rules follow
the ways calls are put together, so that a function is checked along its own
text.
-/

namespace StudioWeb
namespace Rust

open List

variable {α β : Type}

/-- The call returns a value, which has `P`. -/
def Returns (x : Outcome α) (P : α → Prop) : Prop := ∃ a, x = .ok a ∧ P a

/-- The call does not panic, and a value it returns has `P`. -/
def Safe (x : Outcome α) (P : α → Prop) : Prop := x ≠ overflow ∧ ∀ a, x = .ok a → P a

section Returning

variable {P : α → Prop} {x : Outcome α}

theorem returns_ok {a : α} (h : P a) : Returns (.ok a) P := by
  exact ⟨a, rfl, h⟩

theorem returns_of_eq_ok {a : α} (hx : x = .ok a) (h : P a) :
    Returns x P := by
  exact ⟨a, hx, h⟩

theorem Returns.bind {f : α → Outcome β} {Q : β → Prop}
    (hx : Returns x P) (hf : ∀ a, P a → Returns (f a) Q) : Returns (x >>= f) Q := by
  obtain ⟨a, rfl, ha⟩ := hx
  exact hf a ha

theorem Returns.mono {P Q : α → Prop} (hx : Returns x P) (h : ∀ a, P a → Q a) :
    Returns x Q := by
  obtain ⟨a, rfl, ha⟩ := hx
  exact ⟨a, rfl, h a ha⟩

theorem returns_ite {c : Prop} [Decidable c] {x y : Outcome α} (hx : c → Returns x P)
    (hy : ¬ c → Returns y P) : Returns (if c then x else y) P := by
  by_cases h : c
  · rw [if_pos h]
    exact hx h
  · rw [if_neg h]
    exact hy h

theorem returns_mapM {f : α → Outcome β} {P : α → β → Prop} {xs : List α}
    (hf : ∀ x ∈ xs, Returns (f x) (P x)) :
    Returns (xs.mapM f) (fun ys => List.Forall₂ P xs ys) := by
  induction xs with
  | nil => exact returns_ok .nil
  | cons x _ ih =>
    rw [mapM_cons]
    refine (hf x mem_cons_self).bind fun y hy => ?_
    refine (ih fun x' hx' => hf x' (mem_cons_of_mem x hx')).bind fun ys hys => ?_
    exact returns_ok (.cons hy hys)

theorem returns_foldlM {f : β → α → Outcome β} {P : β → Prop} {xs : List α} {b : β} (hb : P b)
    (hf : ∀ b, P b → ∀ x ∈ xs, Returns (f b x) P) : Returns (xs.foldlM f b) P := by
  induction xs generalizing b with
  | nil => exact returns_ok hb
  | cons x _ ih =>
    rw [foldlM_cons]
    refine (hf b hb x mem_cons_self).bind fun b' hb' => ?_
    exact ih hb' fun b hb x' hx' => hf b hb x' (mem_cons_of_mem x hx')

end Returning

section Failing

variable {x : Outcome α} {P : α → Prop}

theorem Returns.safe (h : Returns x P) : Safe x P := by
  obtain ⟨a, rfl, ha⟩ := h
  refine ⟨(fun hpanic => by cases hpanic), fun b hb => ?_⟩
  cases hb
  exact ha

theorem Returns.bind_safe {f : α → Outcome β} {Q : β → Prop}
    (hx : Returns x P) (hf : ∀ a, P a → Safe (f a) Q) : Safe (x >>= f) Q := by
  obtain ⟨a, rfl, ha⟩ := hx
  exact hf a ha

theorem safe_fail {message : String} : Safe (fail message) P := by
  refine ⟨(fun hpanic => by cases hpanic), fun a ha => ?_⟩
  cases ha

theorem Safe.bind {f : α → Outcome β} {Q : β → Prop} (hx : Safe x P)
    (hf : ∀ a, P a → Safe (f a) Q) : Safe (x >>= f) Q := by
  cases x with
  | ok a => exact hf a (hx.2 a rfl)
  | error failure =>
    constructor
    · intro hpanic
      have hfailure : (.error failure : Outcome β) = .error .panic := hpanic
      cases hfailure
      exact hx.1 rfl
    · intro b hb
      cases hb

theorem Safe.mono {P Q : α → Prop} (hx : Safe x P) (h : ∀ a, P a → Q a) :
    Safe x Q := by
  exact ⟨hx.1, fun a ha => h a (hx.2 a ha)⟩

theorem safe_ite {c : Prop} [Decidable c] {x y : Outcome α} (hx : c → Safe x P)
    (hy : ¬ c → Safe y P) : Safe (if c then x else y) P := by
  by_cases h : c
  · rw [if_pos h]
    exact hx h
  · rw [if_neg h]
    exact hy h

end Failing

end Rust
end StudioWeb
