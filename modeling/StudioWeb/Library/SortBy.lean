import Mathlib.Data.List.Nodup
import Mathlib.Tactic.SplitIfs

/-!
# Sorting by a comparison

A `Sorting` keeps the elements of a list, and sorts them where the comparison is an
order of them.  What it gives for a comparison that is none is its own affair.

Insertion sort from the left, each element moved back past the ones that it is less
than, is what a stable sort does with a short list.
-/

namespace StudioWeb

open List

universe u

variable {α : Type u}

/-- The comparison is an order of these elements. -/
structure OrdersOn (less : α → α → Bool) (xs : List α) : Prop where
  trans : ∀ a ∈ xs, ∀ b ∈ xs, ∀ c ∈ xs, less a b = true → less b c = true → less a c = true
  total : ∀ a ∈ xs, ∀ b ∈ xs, a ≠ b → less a b = true ∨ less b a = true

structure Sorting (α : Type u) where
  sort : (α → α → Bool) → List α → List α
  perm : ∀ less xs, (sort less xs).Perm xs
  sorted : ∀ less xs, OrdersOn less xs → xs.Nodup →
    (sort less xs).Pairwise fun a b => less a b = true

variable (less : α → α → Bool)

/-- Insert into a list that is sorted downwards. -/
def insertBack (x : α) : List α → List α
  | [] => [x]
  | y :: rest => if less x y then y :: insertBack x rest else x :: y :: rest

def sortBy (xs : List α) : List α := (xs.foldl (fun back x => insertBack less x back) []).reverse

theorem perm_insertBack (x : α) (back : List α) : (insertBack less x back).Perm (x :: back) := by
  induction back with
  | nil => exact .refl _
  | cons y rest ih =>
    unfold insertBack
    split_ifs
    · exact (ih.cons y).trans (.swap x y rest)
    · exact .refl _

theorem perm_foldl_insertBack (xs back : List α) :
    (xs.foldl (fun back x => insertBack less x back) back).Perm (back ++ xs) := by
  induction xs generalizing back with
  | nil => simp
  | cons x xs ih =>
    refine (ih (insertBack less x back)).trans ?_
    have hinsert := (perm_insertBack less x back).append_right xs
    exact hinsert.trans perm_middle.symm

theorem perm_sortBy (xs : List α) : (sortBy less xs).Perm xs := by
  have h := perm_foldl_insertBack less xs []
  exact (reverse_perm _).trans (by simpa using h)

variable {less}

theorem pairwise_insertBack {all : List α} {x : α} (h : OrdersOn less all) (hx : x ∈ all) :
    ∀ back : List α, (∀ y ∈ back, y ∈ all ∧ y ≠ x) → back.Pairwise (fun a b => less b a = true) →
      (insertBack less x back).Pairwise fun a b => less b a = true
  | [], _, _ => pairwise_singleton _ x
  | y :: rest, hback, hsorted => by
    obtain ⟨hy, hrest⟩ := pairwise_cons.mp hsorted
    unfold insertBack
    split_ifs with hless
    · refine pairwise_cons.mpr ⟨?_, ?_⟩
      · intro z hz
        rcases mem_cons.mp ((perm_insertBack less x rest).mem_iff.mp hz) with rfl | hz
        · exact hless
        · exact hy z hz
      · exact pairwise_insertBack h hx rest (fun z hz => hback z (mem_cons_of_mem _ hz)) hrest
    · have hyx := hback y mem_cons_self
      have hback' : less y x = true := by
        rcases h.total x hx y hyx.1 (Ne.symm hyx.2) with hxy | hyx
        · exact absurd hxy hless
        · exact hyx
      refine pairwise_cons.mpr ⟨?_, hsorted⟩
      intro z hz
      rcases mem_cons.mp hz with rfl | hz
      · exact hback'
      · have hz' := hback z (mem_cons_of_mem _ hz)
        exact h.trans z hz'.1 y hyx.1 x hx (hy z hz) hback'

/-- **The list is sorted** where the comparison is an order. -/
theorem pairwise_sortBy {xs : List α} (h : OrdersOn less xs) (hnodup : xs.Nodup) :
    (sortBy less xs).Pairwise fun a b => less a b = true := by
  have hfold : ∀ (rest back : List α), (back ++ rest).Nodup → (∀ y ∈ back ++ rest, y ∈ xs) →
      back.Pairwise (fun a b => less b a = true) →
      (rest.foldl (fun back x => insertBack less x back) back).Pairwise
        fun a b => less b a = true := by
    intro rest
    induction rest with
    | nil => exact fun back _ _ hsorted => hsorted
    | cons x rest ih =>
      intro back hnodup hmem hsorted
      have hperm : (insertBack less x back ++ rest).Perm (back ++ x :: rest) :=
        ((perm_insertBack less x back).append_right rest).trans perm_middle.symm
      refine ih (insertBack less x back) (hperm.nodup_iff.mpr hnodup) ?_ ?_
      · intro y hy
        exact hmem y (hperm.mem_iff.mp hy)
      · refine pairwise_insertBack h (hmem x (by simp)) back ?_ hsorted
        intro y hy
        refine ⟨hmem y (mem_append_left _ hy), ?_⟩
        rintro rfl
        exact (nodup_append.mp hnodup).2.2 y hy y mem_cons_self rfl
  unfold sortBy
  rw [pairwise_reverse]
  exact hfold xs [] (by simpa using hnodup) (fun y hy => by simpa using hy) List.Pairwise.nil

def insertionSorting : Sorting α :=
  ⟨sortBy, perm_sortBy, fun _ _ h hnodup => pairwise_sortBy h hnodup⟩

end StudioWeb
