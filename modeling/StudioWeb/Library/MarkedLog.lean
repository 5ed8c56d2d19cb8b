import Mathlib.Order.Nat
import StudioWeb.Library.SortBy

/-!
# Reading a log by a mark

The entries of a log carry a sequence number.  A page above a mark is what the log has of
greater numbers, in their order, up to a limit.  A reader takes the number of the last
entry of a page for its next mark.
-/

namespace StudioWeb
namespace MarkedLog

open List

universe u

variable {α : Type u}

/-- The entries above a mark, in their order, at most `limit`. -/
def pageAbove (seq : α → Nat) (log : List α) (mark limit : Nat) : List α :=
  (sortBy (fun x y => decide (seq x < seq y)) (log.filter fun x => mark < seq x)).take limit

/-- How many entries are ahead of a mark. -/
def ahead (seq : α → Nat) (log : List α) (mark : Nat) : Nat :=
  (log.filter fun x => mark < seq x).length

section Pages

variable
  {seq : α → Nat}
  {log : List α}
  {mark limit : Nat}
  {x y : α}

theorem mem_sorted :
    x ∈ sortBy (fun x y => decide (seq x < seq y)) (log.filter fun x => mark < seq x) ↔
      x ∈ log ∧ mark < seq x := by
  rw [(perm_sortBy ..).mem_iff, mem_filter, decide_eq_true_eq]

theorem pairwise_sorted (hdistinct : (log.map seq).Nodup) :
    (sortBy (fun x y => decide (seq x < seq y)) (log.filter fun x => mark < seq x)).Pairwise
      fun x y => seq x < seq y := by
  have hfilter : ((log.filter fun x => mark < seq x).map seq).Nodup :=
    hdistinct.sublist (filter_sublist.map seq)
  have horders :
      OrdersOn (fun x y => decide (seq x < seq y)) (log.filter fun x => mark < seq x) := by
    refine ⟨?_, ?_⟩
    · intro a _ b _ c _ hab hbc
      simp only [decide_eq_true_eq] at hab hbc ⊢
      omega
    · intro a ha b hb hab
      have hne : seq a ≠ seq b := fun heq =>
        hab (inj_on_of_nodup_map hfilter ha hb heq)
      simp only [decide_eq_true_eq]
      omega
  simpa only [decide_eq_true_eq] using pairwise_sortBy horders hfilter.of_map

/-- A page has entries of the log that are above the mark. -/
theorem mem_pageAbove (h : x ∈ pageAbove seq log mark limit) : x ∈ log ∧ mark < seq x :=
  mem_sorted.mp (mem_of_mem_take h)

/-- A page is in order, where no two entries have one number. -/
theorem pairwise_pageAbove (hdistinct : (log.map seq).Nodup) :
    (pageAbove seq log mark limit).Pairwise fun x y => seq x < seq y :=
  (pairwise_sorted hdistinct).sublist (take_sublist _ _)

/-- **A page passes nothing over** up to an entry of it. -/
theorem mem_pageAbove_of_le (hdistinct : (log.map seq).Nodup)
    (hy : y ∈ pageAbove seq log mark limit) (hx : x ∈ log) (habove : mark < seq x)
    (hle : seq x ≤ seq y) : x ∈ pageAbove seq log mark limit := by
  obtain ⟨hylog, _⟩ := mem_pageAbove hy
  have hsame : seq x = seq y → x = y := fun heq =>
    inj_on_of_nodup_map hdistinct hx hylog heq
  rcases Nat.eq_or_lt_of_le hle with heq | hlt
  · rw [hsame heq]
    exact hy
  · have hmem := mem_sorted.mpr ⟨hx, habove⟩
    have hsorted := @pairwise_sorted α seq log mark hdistinct
    rw [← take_append_drop limit (sortBy _ _)] at hmem hsorted
    rcases mem_append.mp hmem with htake | hdrop
    · exact htake
    · -- What comes after a page has greater numbers than what it has.
      have hafter := (pairwise_append.mp hsorted).2.2 y hy x hdrop
      omega

theorem pageAbove_ne_nil (hlimit : 0 < limit) (hx : x ∈ log) (habove : mark < seq x) :
    pageAbove seq log mark limit ≠ [] := by
  intro hnil
  have hmem := mem_sorted.mpr ⟨hx, habove⟩
  rcases take_eq_nil_iff.mp hnil with hzero | hempty
  · omega
  · rw [hempty] at hmem
    cases hmem

/-- **What is ahead gets less** with every entry that is read. -/
theorem ahead_lt {next : Nat} (hx : x ∈ log) (habove : mark < seq x) (hnext : seq x ≤ next) :
    ahead seq log next < ahead seq log mark := by
  unfold ahead
  have hsub :
      log.filter (fun x => next < seq x) =
        (log.filter fun x => mark < seq x).filter fun x => next < seq x := by
    rw [filter_filter]
    refine filter_congr ?_
    intro z _
    by_cases hz : next < seq z
    · have hmark : mark < seq z := by omega
      simp [hz, hmark]
    · simp [hz]
  rw [hsub]
  refine length_filter_lt_length_iff_exists.mpr ⟨x, ?_, ?_⟩
  · exact mem_filter.mpr ⟨hx, by simpa using habove⟩
  · simpa using hnext

theorem seq_le_getLast {items : List α} (hsorted : items.Pairwise fun x y => seq x < seq y)
    (hlast : items.getLast? = some y) (hx : x ∈ items) : seq x ≤ seq y := by
  induction items with
  | nil => cases hx
  | cons _ rest ih =>
    obtain ⟨hz, hrest⟩ := pairwise_cons.mp hsorted
    cases rest with
    | nil =>
      cases hlast
      exact le_of_eq (congrArg seq (mem_singleton.mp hx))
    | cons =>
      rw [getLast?_cons_cons] at hlast
      rcases mem_cons.mp hx with rfl | hx
      · exact (hz y (mem_of_getLast? hlast)).le
      · exact ih hrest hlast hx

end Pages

end MarkedLog
end StudioWeb
