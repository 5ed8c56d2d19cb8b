import Mathlib.Data.List.Induction
import Mathlib.Tactic.Common

/-!
# Where a text holds a pattern as a whole token

A use of a pattern is an occurrence with no part of a token on either side.  The search steps
from one occurrence to the next, overlapping ones included; a pattern that is empty occurs at
the end of every text, and the search for it never passes that end.
-/

namespace StudioWeb
namespace WholeTokens

open List

universe u v

variable {α : Type u} {β : Type v}

/-- What stands before does not end, and what stands behind does not begin, with a part. -/
def apart (part : α → Bool) (before after : List α) : Bool :=
  !before.getLast?.any part && !after.head?.any part

/-- The text holds, seen through a function, the pattern as a whole token. -/
def Used (part : α → Bool) (f : α → β) (pattern : List β) (text : List α) : Prop :=
  ∃ before found after,
    text = before ++ (found ++ after) ∧ found.map f = pattern ∧ apart part before after = true

section Search

variable [DecidableEq α] (part : α → Bool) (pattern : List α)

/-- What a search answers, when it ends. -/
inductive Search where
  | at (start : Nat)
  | missing
  | hangs
deriving DecidableEq

def namedFrom : List α → List α → Search
  | passed, [] =>
    if pattern ≠ [] then
      .missing
    else if apart part passed [] then
      .at passed.length
    else
      -- The next place is past the end, where no character begins.
      .hangs
  | passed, c :: text =>
    if pattern.isPrefixOf (c :: text) && apart part passed ((c :: text).drop pattern.length) then
      .at passed.length
    else
      namedFrom (passed ++ [c]) text

def namedAt (text : List α) : Search := namedFrom part pattern [] text

def UsedFrom (passed text : List α) : Prop :=
  ∃ skipped after, text = skipped ++ (pattern ++ after) ∧
    apart part (passed ++ skipped) after = true

variable {part pattern}

omit [DecidableEq α] in
theorem usedFrom_nil {passed : List α} :
    UsedFrom part pattern passed [] ↔ pattern = [] ∧ apart part passed [] = true := by
  constructor
  · rintro ⟨skipped, after, htext, hapart⟩
    obtain ⟨rfl, hrest⟩ := append_eq_nil_iff.mp htext.symm
    obtain ⟨rfl, rfl⟩ := append_eq_nil_iff.mp hrest
    exact ⟨rfl, by simpa using hapart⟩
  · rintro ⟨rfl, hapart⟩
    exact ⟨[], [], rfl, by simpa using hapart⟩

theorem usedFrom_cons {passed : List α} {c : α} {text : List α} :
    UsedFrom part pattern passed (c :: text) ↔ (pattern.isPrefixOf (c :: text) &&
          apart part passed ((c :: text).drop pattern.length)) = true ∨
        UsedFrom part pattern (passed ++ [c]) text := by
  simp only [Bool.and_eq_true, List.isPrefixOf_iff_prefix]
  constructor
  · rintro ⟨skipped, after, htext, hapart⟩
    cases skipped with
    | nil =>
      rw [nil_append] at htext
      rw [append_nil] at hapart
      refine .inl ⟨⟨after, htext.symm⟩, ?_⟩
      rw [htext, drop_left]
      exact hapart
    | cons d skipped =>
      cases htext
      refine .inr ⟨skipped, after, rfl, ?_⟩
      rw [append_assoc]
      exact hapart
  · rintro (⟨⟨after, htext⟩, hapart⟩ | ⟨skipped, after, rfl, hapart⟩)
    · rw [← htext, drop_left] at hapart
      refine ⟨[], after, htext.symm, ?_⟩
      rw [append_nil]
      exact hapart
    · refine ⟨c :: skipped, after, rfl, ?_⟩
      rw [append_assoc] at hapart
      exact hapart

theorem namedFrom_spec (passed text : List α) :
    ((∃ start, namedFrom part pattern passed text = .at start) ↔
        UsedFrom part pattern passed text) ∧
      (namedFrom part pattern passed text = .hangs ↔
        pattern = [] ∧ ¬ UsedFrom part pattern passed text) := by
  induction text generalizing passed with
  | nil =>
    unfold namedFrom
    rw [usedFrom_nil]
    by_cases hpattern : pattern = []
    · cases apart part passed [] <;> simp [hpattern]
    · simp [hpattern]
  | cons c text ih =>
    obtain ⟨hat, hhangs⟩ := ih (passed ++ [c])
    unfold namedFrom
    rw [usedFrom_cons]
    split
    · next hhere => simp only [hhere, true_or, not_true, and_false, Search.at.injEq,
        exists_eq', reduceCtorEq, iff_self, and_self]
    · next hhere => simp only [hat, hhangs, hhere, Bool.false_eq_true, false_or, iff_self, and_self]

theorem le_of_namedFrom {start : Nat} (passed text : List α)
    (h : namedFrom part pattern passed text = .at start) : start ≤ passed.length + text.length := by
  induction text generalizing passed with
  | nil =>
    unfold namedFrom at h
    split at h
    · cases h
    · split at h
      · cases h
        exact Nat.le_refl _
      · cases h
  | cons c text ih =>
    rw [namedFrom] at h
    split at h
    · cases h
      exact Nat.le_add_right _ _
    · refine Nat.le_trans (ih (passed ++ [c]) h) ?_
      rw [length_append, length_singleton, length_cons]
      omega

omit [DecidableEq α] in
theorem usedFrom_nil_iff {text : List α} :
    UsedFrom part pattern [] text ↔ Used part id pattern text := by
  unfold UsedFrom Used
  simp only [nil_append, map_id_fun, id_eq]
  constructor
  · rintro ⟨before, after, htext, hapart⟩
    exact ⟨before, pattern, after, htext, rfl, hapart⟩
  · rintro ⟨before, found, after, htext, rfl, hapart⟩
    exact ⟨before, after, htext, hapart⟩

theorem exists_namedAt_iff {text : List α} :
    (∃ start, namedAt part pattern text = .at start) ↔ Used part id pattern text :=
  (namedFrom_spec [] text).1.trans usedFrom_nil_iff

theorem namedAt_hangs_iff {text : List α} :
    namedAt part pattern text = .hangs ↔ pattern = [] ∧ ¬ Used part id pattern text :=
  (namedFrom_spec [] text).2.trans (and_congr_right fun _ => not_congr usedFrom_nil_iff)

end Search

section Uses

variable {part : α → Bool} {f : α → β} {pattern : List β} {xs ys : List α} {c : α}

/-- A function that keeps parts and no parts keeps the uses. -/
theorem used_map_iff {γ : Type v} {g : γ → α} {text : List γ} {pattern : List α} :
    Used part id pattern (text.map g) ↔ Used (fun x => part (g x)) g pattern text := by
  constructor
  · rintro ⟨before, found, after, htext, hfound, hapart⟩
    obtain ⟨before', rest, rfl, rfl, hrest⟩ := map_eq_append_iff.mp htext
    obtain ⟨found', after', rfl, rfl, rfl⟩ := map_eq_append_iff.mp hrest
    refine ⟨before', found', after', rfl, by simpa using hfound, ?_⟩
    simpa [apart, Option.any_map, Function.comp_def] using hapart
  · rintro ⟨before, found, after, rfl, rfl, hapart⟩
    refine ⟨before.map g, found.map g, after.map g, by simp, by simp, ?_⟩
    simpa [apart, Option.any_map, Function.comp_def] using hapart

theorem Used.mono {part' : α → Bool} (hpart : ∀ x, part x = true → part' x = true)
    (h : Used part' f pattern xs) : Used part f pattern xs := by
  obtain ⟨before, found, after, htext, hfound, hapart⟩ := h
  refine ⟨before, found, after, htext, hfound, ?_⟩
  unfold apart at hapart ⊢
  simp only [Bool.and_eq_true, Bool.not_eq_true', Option.any_eq_false] at hapart ⊢
  have hnot : ∀ x, part' x = false → part x = false := by
    intro x hx
    rw [← Bool.not_eq_true] at hx ⊢
    exact fun h => hx (hpart x h)
  exact ⟨fun x hx => hnot x (hapart.1 x hx), fun x hx => hnot x (hapart.2 x hx)⟩

theorem apart_separator_before (hc : part c = false) (xs before after : List α) :
    apart part (xs ++ c :: before) after = apart part before after := by
  cases before using List.reverseRecOn with
  | nil => simp [apart, hc]
  | append_singleton before d _ =>
    rw [← cons_append, ← append_assoc, apart, apart, getLast?_concat,
      getLast?_concat]

theorem apart_separator_after (hc : part c = false) (before after ys : List α) :
    apart part before (after ++ c :: ys) = apart part before after := by
  cases after with
  | nil => simp [apart, hc]
  | cons => simp [apart]

theorem used_append_separator (hc : part c = false)
    (h : Used part f pattern xs ∨ Used part f pattern ys) :
    Used part f pattern (xs ++ c :: ys) := by
  rcases h with ⟨before, found, after, rfl, hfound, hapart⟩ |
    ⟨before, found, after, rfl, hfound, hapart⟩
  · refine ⟨before, found, after ++ c :: ys, by simp, hfound, ?_⟩
    rw [apart_separator_after hc]
    exact hapart
  · refine ⟨xs ++ c :: before, found, after, by simp, hfound, ?_⟩
    rw [apart_separator_before hc]
    exact hapart

/-- A pattern without the separator is used on one side of it. -/
theorem used_append_separator_iff (hc : part c = false) (hpattern : f c ∉ pattern) :
    Used part f pattern (xs ++ c :: ys) ↔
      Used part f pattern xs ∨ Used part f pattern ys := by
  refine ⟨?_, used_append_separator hc⟩
  rintro ⟨before, found, after, htext, hfound, hapart⟩
  have hin : c ∉ found := fun hmem => hpattern (hfound ▸ mem_map_of_mem hmem)
  -- An empty use is on both sides of the separator.
  have hempty : ∀ after', apart part before after' = true → apart part before [] = true := by
    intro after' h
    unfold apart at h ⊢
    rw [((Bool.and_eq_true _ _).mp h).1]
    rfl
  rcases append_eq_append_iff.mp htext with ⟨t, rfl, hrest⟩ | ⟨t, rfl, hrest⟩
  · cases t with
    | nil =>
      cases found with
      | nil =>
        rw [append_nil] at hempty
        exact .inl ⟨xs, [], [], by simp, hfound, hempty after (by simpa using hapart)⟩
      | cons d found =>
        cases hrest
        exact absurd mem_cons_self hin
    | cons d t =>
      cases hrest
      rw [apart_separator_before hc] at hapart
      exact .inr ⟨t, found, after, rfl, hfound, hapart⟩
  · rcases append_eq_append_iff.mp hrest with ⟨s, rfl, rfl⟩ | ⟨s, rfl, hs⟩
    · rw [apart_separator_after hc] at hapart
      exact .inl ⟨before, found, s, rfl, hfound, hapart⟩
    · cases s with
      | nil =>
        exact .inl ⟨before, t, [], by simp, by simpa using hfound, hempty after hapart⟩
      | cons d s =>
        cases hs
        exact absurd (mem_append_right _ mem_cons_self) hin

end Uses

section Separators

variable [DecidableEq α] {part : α → Bool} {pattern : List α} {c : α}

/-- The answer of a search that began later in the text. -/
def Search.shift (n : Nat) : Search → Search
  | .at start => .at (n + start)
  | answer => answer

theorem namedFrom_shift (hc : part c = false) (front passed text : List α) :
    namedFrom part pattern (front ++ c :: passed) text =
      (namedFrom part pattern passed text).shift (front.length + 1) := by
  have hlength : ∀ passed : List α, (front ++ c :: passed).length =
      front.length + 1 + passed.length := by
    intro passed
    rw [length_append, length_cons]
    omega
  induction text generalizing passed with
  | nil =>
    unfold namedFrom
    rw [apart_separator_before hc, hlength]
    split
    · rfl
    · split <;> rfl
  | cons x text ih =>
    unfold namedFrom
    rw [apart_separator_before hc, hlength, append_assoc, cons_append, ih]
    split <;> rfl

theorem isPrefixOf_append_separator (hpattern : c ∉ pattern) (xs ys : List α) :
    pattern.isPrefixOf (xs ++ c :: ys) = pattern.isPrefixOf xs := by
  rw [Bool.eq_iff_iff, List.isPrefixOf_iff_prefix, List.isPrefixOf_iff_prefix]
  constructor
  · intro h
    by_cases hle : pattern.length ≤ xs.length
    · exact prefix_of_prefix_length_le h (prefix_append xs _) hle
    · -- A longer pattern would hold the separator.
      have hback : xs ++ [c] <+: pattern := by
        have hwhole : xs ++ [c] <+: xs ++ c :: ys := ⟨ys, by simp⟩
        refine prefix_of_prefix_length_le hwhole h ?_
        rw [length_append, length_singleton]
        omega
      exact absurd (hback.subset (mem_append_right _ mem_cons_self)) hpattern
  · exact fun h => h.trans (prefix_append xs _)

/-- A pattern without the separator is looked for before it, and then behind it. -/
theorem namedAt_append_separator (hc : part c = false) (hpattern : c ∉ pattern)
    (hne : pattern ≠ []) (xs ys : List α) :
    namedAt part pattern (xs ++ c :: ys) =
      match namedAt part pattern xs with
      | .at start => .at start
      | _ => (namedAt part pattern ys).shift (xs.length + 1) := by
  have hfrom : ∀ passed, namedFrom part pattern passed (xs ++ c :: ys) =
      match namedFrom part pattern passed xs with
      | .at start => .at start
      | _ => namedFrom part pattern (passed ++ xs ++ [c]) ys := by
    induction xs with
    | nil =>
      intro passed
      have hnot : pattern.isPrefixOf (c :: ys) = false := by
        have hnil := isPrefixOf_append_separator hpattern [] ys
        rw [nil_append] at hnil
        rw [hnil]
        cases pattern with
        | nil => exact absurd rfl hne
        | cons => rfl
      rw [nil_append, append_nil, namedFrom, namedFrom, hnot, if_pos hne]
      rfl
    | cons x xs ih =>
      intro passed
      have hhere : (pattern.isPrefixOf (x :: (xs ++ c :: ys)) &&
          apart part passed ((x :: (xs ++ c :: ys)).drop pattern.length)) =
          (pattern.isPrefixOf (x :: xs) && apart part passed ((x :: xs).drop pattern.length)) := by
        have hstarts := isPrefixOf_append_separator hpattern (x :: xs) ys
        rw [cons_append] at hstarts
        rw [hstarts]
        cases h : pattern.isPrefixOf (x :: xs) with
        | false => rfl
        | true =>
          rw [← cons_append, drop_append_of_le_length
            (List.isPrefixOf_iff_prefix.mp h).length_le, apart_separator_after hc]
      rw [cons_append, namedFrom, namedFrom, hhere, ih]
      split
      · rfl
      · rw [append_assoc passed [x], singleton_append]
  unfold namedAt
  rw [hfrom, nil_append, namedFrom_shift hc]

end Separators

section Tokens

variable {part : α → Bool} {token : List α}

/-- A use that is a token stands at both ends of a text without separators. -/
theorem splitOnP_of_parts (hparts : ∀ x ∈ token, part x = true) :
    token.splitOnP (fun x => !part x) = [token] :=
  splitOnP_eq_singleton fun x hx => by simp [hparts x hx]

theorem mem_splitOnP_of_used (hparts : ∀ x ∈ token, part x = true) {text : List α}
    (h : Used part id token text) : token ∈ text.splitOnP fun x => !part x := by
  obtain ⟨before, found, after, rfl, hfound, hapart⟩ := h
  rw [map_id] at hfound
  subst hfound
  unfold apart at hapart
  obtain ⟨hbefore, hafter⟩ := (Bool.and_eq_true _ _).mp hapart
  have hrest : found ∈ (found ++ after).splitOnP fun x => !part x := by
    cases after with
    | nil =>
      rw [append_nil, splitOnP_of_parts hparts]
      exact mem_cons_self
    | cons d after =>
      rw [splitOnP_append_cons _ _ (by simpa using hafter), splitOnP_of_parts hparts]
      exact mem_cons_self
  cases before using List.reverseRecOn with
  | nil => exact hrest
  | append_singleton before d _ =>
    rw [append_assoc, singleton_append,
      splitOnP_append_cons _ _ (by simpa using hbefore)]
    exact mem_append_right _ hrest

theorem used_of_mem_splitOnP {text : List α} (h : token ∈ text.splitOnP fun x => !part x) :
    Used part id token text := by
  by_cases hseparator : ∃ c ∈ text, part c = false
  · obtain ⟨c, hmem, hc⟩ := hseparator
    obtain ⟨xs, ys, rfl⟩ := append_of_mem hmem
    rw [splitOnP_append_cons _ _ (by simpa using hc)] at h
    refine used_append_separator hc ((mem_append.mp h).imp ?_ ?_)
    · exact used_of_mem_splitOnP
    · exact used_of_mem_splitOnP
  · have hparts : ∀ x ∈ text, part x = true := by
      intro x hx
      by_contra hnot
      exact hseparator ⟨x, hx, eq_false_of_ne_true hnot⟩
    rw [splitOnP_of_parts hparts, mem_singleton] at h
    exact ⟨[], text, [], by simp, by simpa using h.symm, rfl⟩
termination_by text.length
decreasing_by
  · simp [*]
  · simp [*]
    omega

/-- A pattern of parts alone is used exactly when it is one of the tokens. -/
theorem mem_splitOnP_iff (hparts : ∀ x ∈ token, part x = true) {text : List α} :
    token ∈ text.splitOnP (fun x => !part x) ↔ Used part id token text :=
  ⟨used_of_mem_splitOnP, mem_splitOnP_of_used hparts⟩

end Tokens

end WholeTokens
end StudioWeb
