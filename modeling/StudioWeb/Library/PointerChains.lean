import Mathlib.Logic.Function.Basic

/-!
# Chains of pointers

A node is absent, an end, or points to another node.  A chain of a bounded number of
nodes leads from a node to an end.

**Results.**
* `LeadsTo.add`: a new node changes no chain.
* `LeadsTo.redirect_of_ne`, `LeadsTo.redirect`: an end that is made to point to another
  end leaves every other chain, and lengthens its own by one node.
-/

namespace StudioWeb
namespace PointerChains

open Function

universe u

variable {α : Type u}
variable {pointer : α → Option (Option α)} {n m : Nat} {a b c : α}

/-- The node `b` is an end, and a chain of at most `n` nodes leads to it. -/
inductive LeadsTo (pointer : α → Option (Option α)) : Nat → α → α → Prop
  | here
      {n : Nat}
      {a : α}
      (hend : pointer a = some none) :
      LeadsTo pointer (n + 1) a a
  | hop
      {n : Nat}
      {a next b : α}
      (hnext : pointer a = some (some next))
      (rest : LeadsTo pointer n next b) :
      LeadsTo pointer (n + 1) a b

namespace LeadsTo

theorem isEnd (h : LeadsTo pointer n a b) : pointer b = some none := by
  induction h with
  | here hend => exact hend
  | hop _ _ ih => exact ih

theorem not_self (h : LeadsTo pointer n a b) : pointer a ≠ some (some a) := by
  induction h with
  | here hend =>
    rw [hend]
    simp
  | hop hnext _ ih =>
    intro hself
    rw [hnext, Option.some.injEq, Option.some.injEq] at hself
    subst hself
    exact ih hnext

theorem mono (h : LeadsTo pointer n a b) (hle : n ≤ m) : LeadsTo pointer m a b := by
  induction h generalizing m with
  | here hend =>
    obtain ⟨k, rfl⟩ := Nat.exists_eq_add_of_lt hle
    exact .here hend
  | hop hnext _ ih =>
    obtain ⟨k, rfl⟩ := Nat.exists_eq_add_of_lt hle
    exact .hop hnext (ih (by omega))

section Update

variable [DecidableEq α]

/-- A new node changes no chain. -/
theorem add {target : Option (Option α)} (h : LeadsTo pointer n a b) (hnew : pointer c = none) :
    LeadsTo (Function.update pointer c target) n a b := by
  have hold : ∀ x y, pointer x = some y → Function.update pointer c target x = some y := by
    intro x y hx
    have hne : x ≠ c := by
      rintro rfl
      rw [hnew] at hx
      cases hx
    rw [update_of_ne hne, hx]
  induction h with
  | here hend => exact .here (hold _ _ hend)
  | hop hnext _ ih => exact .hop (hold _ _ hnext) ih

/-- The chains to other ends stay. -/
theorem redirect_of_ne {target : Option (Option α)} (h : LeadsTo pointer n a b)
    (hend : pointer c = some none) (hne : b ≠ c) :
    LeadsTo (Function.update pointer c target) n a b := by
  induction h with
  | here h =>
    exact .here (by rw [update_of_ne hne, h])
  | hop hnext rest ih =>
    rename_i x next y
    have hx : x ≠ c := by
      rintro rfl
      rw [hend] at hnext
      cases hnext
    exact .hop (by rw [update_of_ne hx, hnext]) (ih hne)

/-- The chains to the end go on to the node that it points to. -/
theorem redirect (h : LeadsTo pointer n a c) (hother : pointer b = some none) (hne : b ≠ c) :
    LeadsTo (Function.update pointer c (some (some b))) (n + 1) a b := by
  have hlast : LeadsTo (Function.update pointer c (some (some b))) 1 b b :=
    .here (by rw [update_of_ne hne, hother])
  have hend := h.isEnd
  induction h with
  | here =>
    refine .hop (update_self ..) (hlast.mono ?_)
    omega
  | hop hnext rest ih =>
    rename_i n x next y
    have hx : x ≠ y := by
      rintro rfl
      rw [hend] at hnext
      cases hnext
    exact .hop (by rw [update_of_ne hx, hnext]) (ih hne hlast hend)

end Update

end LeadsTo

end PointerChains
end StudioWeb
