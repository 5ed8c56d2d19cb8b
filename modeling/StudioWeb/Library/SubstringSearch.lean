import Mathlib.Data.List.Basic
import Mathlib.Tactic.Common

/-!
# Where a marker stands in a text, and texts that are joined with a separator

`splitFirst` cuts a text at the first occurrence of a marker; `occurrences` walks through
all of them from left to right, none inside another.

**Results.** `splitFirst_append`.
* `append_separator_injective`, `append_separator_injective_last`: what has no separator stands
  before the first one, and after the last one.
* `splitFirst_eq_some`: the pieces and the marker are the text.
-/

namespace StudioWeb

open List

universe u

section Joined

variable {α : Type u} {c : α}

theorem append_separator_injective {xs ys us vs : List α} (hx : c ∉ xs) (hy : c ∉ ys)
    (h : xs ++ c :: us = ys ++ c :: vs) : xs = ys ∧ us = vs := by
  induction xs generalizing ys with
  | nil =>
    cases ys with
    | nil =>
      exact ⟨rfl, by simpa using h⟩
    | cons =>
      simp only [nil_append, cons_append, List.cons.injEq] at h
      exact absurd (h.1 ▸ mem_cons_self) hy
  | cons _ _ ih =>
    cases ys with
    | nil =>
      simp only [nil_append, cons_append, List.cons.injEq] at h
      exact absurd (h.1 ▸ mem_cons_self) hx
    | cons =>
      simp only [cons_append, List.cons.injEq] at h
      obtain ⟨hxs, hus⟩ :=
        ih (fun hc => hx (mem_cons_of_mem _ hc)) (fun hc => hy (mem_cons_of_mem _ hc)) h.2
      exact ⟨by rw [h.1, hxs], hus⟩

theorem append_separator_injective_last {xs ys us vs : List α} (hu : c ∉ us) (hv : c ∉ vs)
    (h : xs ++ c :: us = ys ++ c :: vs) : xs = ys ∧ us = vs := by
  have hreversed : us.reverse ++ c :: xs.reverse = vs.reverse ++ c :: ys.reverse := by
    simpa using congrArg List.reverse h
  obtain ⟨hus, hxs⟩ := append_separator_injective (by simpa using hu) (by simpa using hv) hreversed
  exact ⟨reverse_injective hxs, reverse_injective hus⟩

/-- A property of every item, by a check that runs over the list. -/
theorem forall_mem_of_all {P : α → Prop} [DecidablePred P] {xs : List α}
    (h : xs.all (fun x => decide (P x)) = true) : ∀ x ∈ xs, P x :=
  fun x hx => of_decide_eq_true (all_eq_true.mp h x hx)

theorem not_mem_of_mem_splitOn [DecidableEq α] {text : List α} :
    ∀ piece ∈ text.splitOn c, c ∉ piece := by
  induction text with
  | nil =>
    intro piece hpiece
    rw [splitOn_nil, mem_singleton] at hpiece
    subst hpiece
    nofun
  | cons _ text ih =>
    intro piece hpiece
    rw [splitOn_cons_eq_if_modifyHead] at hpiece
    split at hpiece
    · rcases mem_cons.mp hpiece with rfl | hpiece
      · nofun
      · exact ih piece hpiece
    · next hx =>
      cases hpieces : text.splitOn c with
      | nil => exact absurd hpieces (splitOn_ne_nil c text)
      | cons first =>
        rw [hpieces] at hpiece ih
        rcases mem_cons.mp hpiece with rfl | hpiece
        · rw [mem_cons, not_or]
          exact ⟨fun heq => hx (by simp [← heq]), ih first mem_cons_self⟩
        · exact ih piece (mem_cons_of_mem first hpiece)

end Joined

namespace SubstringSearch

variable {α : Type u} [DecidableEq α]

def splitFirst (marker : List α) : List α → Option (List α × List α)
  | [] => if marker = [] then some ([], []) else none
  | x :: text =>
    if marker.isPrefixOf (x :: text) then
      some ([], (x :: text).drop marker.length)
    else
      (splitFirst marker text).map fun p => (x :: p.1, p.2)

/-- The loop of `occurrences`, with how much of a marker is still to be passed and what was
passed last. -/
def occurrencesFrom (marker : List α) : Nat → Option α → List α → List (Option α × List α)
  | _, _, [] => []
  | skip + 1, _, _ :: text => occurrencesFrom marker skip none text
  | 0, before, x :: text =>
    if marker.isPrefixOf (x :: text) then
      (before, (x :: text).drop marker.length) ::
        occurrencesFrom marker (marker.length - 1) none text
    else
      occurrencesFrom marker 0 (some x) text

/-- What stands before each occurrence of a marker, where nothing of another one is between,
and the text after it. -/
def occurrences (marker text : List α) : List (Option α × List α) :=
  occurrencesFrom marker 0 none text

/-- Whether the marker stands in the text. -/
def holds (marker text : List α) : Bool := (splitFirst marker text).isSome

theorem splitFirst_eq_some {marker : List α} :
    ∀ {text before after : List α},
      splitFirst marker text = some (before, after) → text = before ++ marker ++ after
  | [], before, after, h => by
    unfold splitFirst at h
    split at h
    · next hmarker =>
      cases h
      rw [hmarker]
      rfl
    · cases h
  | x :: text, before, after, h => by
    unfold splitFirst at h
    split at h
    · next hstart =>
      cases h
      obtain ⟨rest, hrest⟩ := List.isPrefixOf_iff_prefix.mp hstart
      rw [← hrest, drop_left]
      rfl
    · obtain ⟨⟨before', after'⟩, hsplit, hpair⟩ := Option.map_eq_some_iff.mp h
      cases hpair
      rw [splitFirst_eq_some hsplit]
      rfl

/-- More text behind does not move the first occurrence. -/
theorem splitFirst_append {marker : List α} (more : List α) :
    ∀ {text before after : List α},
      splitFirst marker text = some (before, after) →
      splitFirst marker (text ++ more) = some (before, after ++ more)
  | [], before, after, h => by
    unfold splitFirst at h
    split at h
    · next hmarker =>
      cases h
      subst hmarker
      cases more with
      | nil => rfl
      | cons => simp [splitFirst]
    · cases h
  | x :: text, before, after, h => by
    unfold splitFirst at h
    rw [cons_append]
    unfold splitFirst
    split at h
    · next hstart =>
      cases h
      have hstarts := List.isPrefixOf_iff_prefix.mp hstart
      have hstill : marker.isPrefixOf (x :: (text ++ more)) = true :=
        List.isPrefixOf_iff_prefix.mpr (hstarts.trans (prefix_append (x :: text) more))
      rw [if_pos hstill, ← cons_append, drop_append_of_le_length hstarts.length_le]
    · next hnot =>
      obtain ⟨⟨before', after'⟩, hsplit, hpair⟩ := Option.map_eq_some_iff.mp h
      cases hpair
      -- an occurrence here would end inside the text, where there is a later one
      have hlength : marker.length ≤ (x :: text).length := by
        have htext := congrArg List.length (splitFirst_eq_some hsplit)
        simp only [length_append, length_cons] at htext ⊢
        omega
      have hstill : ¬ marker.isPrefixOf (x :: (text ++ more)) = true := by
        intro hstart
        apply hnot
        rw [List.isPrefixOf_iff_prefix] at hstart ⊢
        exact prefix_of_prefix_length_le hstart (prefix_append (x :: text) more) hlength
      rw [if_neg hstill, splitFirst_append more hsplit]
      rfl

end SubstringSearch
end StudioWeb
