import Mathlib.Order.Defs.LinearOrder
import StudioWeb.Library.SortBy
import Mathlib.Order.Lattice

/-!
# Ranks in a stable sort

Sorting by a key, greatest first, leaves elements with one key as they stood.  The index
of an element in what comes out is the number of elements that go before it.
-/

namespace StudioWeb
namespace StableRank

open List

universe u v

variable {α : Type u} {κ : Type v} [LinearOrder κ]
variable (key : α → κ) (stands : α → Nat)

/-- The comparison of a sort by key, greatest first. -/
def greater (a b : α) : Bool := key b < key a

/-- A greater key goes first, and of equal keys the one that stands first. -/
def goesBefore (a b : α) : Bool := key b < key a || (key a = key b && stands a < stands b)

variable {key} {stands}

theorem goesBefore_iff {a b : α} :
    goesBefore key stands a b = true ↔ key b < key a ∨ key a = key b ∧ stands a < stands b := by
  simp [goesBefore]

theorem not_goesBefore_of_goesBefore {a b : α} (h : goesBefore key stands a b = true) :
    ¬ goesBefore key stands b a = true := by
  rw [goesBefore_iff] at h ⊢
  rintro (hkey | ⟨hkey, hstands⟩)
  · rcases h with hlt | ⟨heq, -⟩
    · exact lt_asymm hkey hlt
    · exact absurd hkey (heq ▸ lt_irrefl _)
  · rcases h with hlt | ⟨-, hlt⟩
    · exact absurd hlt (hkey ▸ lt_irrefl _)
    · omega

theorem goesBefore_trans {a b c : α} (hab : goesBefore key stands a b = true)
    (hbc : goesBefore key stands b c = true) : goesBefore key stands a c = true := by
  rw [goesBefore_iff] at hab hbc ⊢
  rcases hab with hab | ⟨hab, habStands⟩
  · rcases hbc with hbc | ⟨hbc, -⟩
    · exact .inl (lt_trans hbc hab)
    · exact .inl (hbc ▸ hab)
  · rcases hbc with hbc | ⟨hbc, hbcStands⟩
    · exact .inl (hab ▸ hbc)
    · exact .inr ⟨hab.trans hbc, by omega⟩

theorem pairwise_insertBack_key {x : α} {back : List α} (hstands : ∀ y ∈ back, stands y < stands x)
    (hsorted : back.Pairwise fun a b => goesBefore key stands b a = true) :
    (insertBack (greater key) x back).Pairwise fun a b => goesBefore key stands b a = true := by
  induction back with
  | nil => exact pairwise_singleton _ x
  | cons y rest ih =>
    obtain ⟨hy, hrest⟩ := pairwise_cons.mp hsorted
    have hrestStands : ∀ z ∈ rest, stands z < stands x := by
      intro z hz
      exact hstands z (mem_cons_of_mem _ hz)
    unfold insertBack
    split_ifs with hgreater
    · refine pairwise_cons.mpr ⟨?_, ih hrestStands hrest⟩
      intro z hz
      rcases mem_cons.mp ((perm_insertBack _ x rest).mem_iff.mp hz) with rfl | hz
      · exact goesBefore_iff.mpr (.inl (by simpa [greater] using hgreater))
      · exact hy z hz
    · have hle : key x ≤ key y := by simpa [greater] using hgreater
      have hyx : goesBefore key stands y x = true := by
        rw [goesBefore_iff]
        rcases lt_or_eq_of_le hle with hlt | heq
        · exact .inl hlt
        · exact .inr ⟨heq.symm, hstands y mem_cons_self⟩
      refine pairwise_cons.mpr ⟨?_, hsorted⟩
      intro z hz
      rcases mem_cons.mp hz with rfl | hz
      · exact hyx
      · exact goesBefore_trans (hy z hz) hyx

variable {xs : List α}

/-- Sorting by key leaves equal keys as they stood. -/
theorem pairwise_sortBy_key (hstands : xs.Pairwise fun a b => stands a < stands b) :
    (sortBy (greater key) xs).Pairwise fun a b => goesBefore key stands a b = true := by
  have hfold : ∀ (rest back : List α), rest.Pairwise (fun a b => stands a < stands b) →
      (∀ y ∈ back, ∀ x ∈ rest, stands y < stands x) →
      back.Pairwise (fun a b => goesBefore key stands b a = true) →
      (rest.foldl (fun back x => insertBack (greater key) x back) back).Pairwise
        fun a b => goesBefore key stands b a = true := by
    intro rest
    induction rest with
    | nil => exact fun back _ _ hsorted => hsorted
    | cons x _ ih =>
      intro back hrest hback hsorted
      obtain ⟨hx, hrest'⟩ := pairwise_cons.mp hrest
      have hbackX : ∀ y ∈ back, stands y < stands x := by
        intro y hy
        exact hback y hy x mem_cons_self
      refine ih (insertBack (greater key) x back) hrest' ?_ (pairwise_insertBack_key hbackX hsorted)
      intro y hy z hz
      rcases mem_cons.mp ((perm_insertBack _ x back).mem_iff.mp hy) with rfl | hy
      · exact hx z hz
      · exact hback y hy z (mem_cons_of_mem _ hz)
  unfold sortBy
  rw [pairwise_reverse]
  refine hfold xs [] hstands ?_ List.Pairwise.nil
  intro y hy
  exact absurd hy not_mem_nil

/-- In a list that is in order, an index counts what goes before. -/
theorem mem_zipIdx_iff_of_pairwise {before : α → α → Bool}
    (hasymm : ∀ a b, before a b = true → ¬ before b a = true)
    (hsorted : xs.Pairwise fun a b => before a b = true) (x : α) (n i : Nat) :
    (x, i) ∈ xs.zipIdx n ↔ x ∈ xs ∧ i = n + xs.countP fun y => before y x := by
  induction xs generalizing n with
  | nil => simp
  | cons y rest ih =>
    obtain ⟨hy, hrest⟩ := pairwise_cons.mp hsorted
    have hself : ¬ before y y = true := fun h => hasymm y y h h
    have hfirst : (y :: rest).countP (fun z => before z y) = 0 := by
      rw [countP_eq_zero]
      intro z hz
      rcases mem_cons.mp hz with rfl | hz
      · exact hself
      · exact hasymm y z (hy z hz)
    have hlater : x ∈ rest → (y :: rest).countP (fun z => before z x) =
        rest.countP (fun z => before z x) + 1 := by
      intro hmem
      exact countP_cons_of_pos (hy x hmem)
    rw [zipIdx_cons, mem_cons, ih hrest (n + 1), mem_cons]
    constructor
    · rintro (heq | ⟨hmem, hi⟩)
      · obtain ⟨rfl, rfl⟩ := Prod.mk.inj heq
        exact ⟨.inl rfl, by rw [hfirst, Nat.add_zero]⟩
      · refine ⟨.inr hmem, ?_⟩
        rw [hlater hmem]
        omega
    · rintro ⟨rfl | hmem, hi⟩
      · rw [hfirst, Nat.add_zero] at hi
        exact .inl (Prod.ext rfl hi)
      · refine .inr ⟨hmem, ?_⟩
        rw [hlater hmem] at hi
        omega

/-- The index an element has once sorted counts the elements that go before it. -/
theorem mem_zipIdx_sortBy (hstands : xs.Pairwise fun a b => stands a < stands b) (x : α) (i : Nat) :
    (x, i) ∈ (sortBy (greater key) xs).zipIdx ↔
      x ∈ xs ∧ i = xs.countP fun y => goesBefore key stands y x := by
  have hperm := perm_sortBy (greater key) xs
  have hasymm : ∀ a b, goesBefore key stands a b = true → ¬ goesBefore key stands b a = true :=
    fun a b h => not_goesBefore_of_goesBefore h
  have h := mem_zipIdx_iff_of_pairwise hasymm (pairwise_sortBy_key hstands) x 0 i
  rw [h, hperm.mem_iff, hperm.countP_eq, Nat.zero_add]

end StableRank
end StudioWeb
