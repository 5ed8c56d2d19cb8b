import StudioWeb.Documents.Trace
import Mathlib

/-!
# Where a finding's fix is applied

`apply_edit` and `insert_after` of `documents/spec_model/domain_doc.rs`.  The first replaces a
passage of a text, found with each run of whitespace folded to one space; the second adds a
sentence as a paragraph behind the block that a line is in.  A text is its characters, and an
offset counts them.
-/

namespace StudioWeb
namespace Documents
namespace FixEdits

open Rust (isWhitespace splitWhitespace)
open SubstringSearch List Option
open Product (linesOf withoutReturn)
open Tracing (lines_induction linesOf_last linesOf_append not_feed_mem_linesOf)

/-- `split_whitespace` and `join(" ")`. -/
def foldWords (text : List Char) : List Char := [' '].intercalate (splitWhitespace text)

/-- The loop of `apply_edit`: each folded character with the offset of the one it stands for. -/
def foldFrom : Bool → Bool → Nat → List Char → List (Char × Nat)
  | _, _, _, [] => []
  | inSpace, isFirst, i, c :: text =>
    if isWhitespace c then
      if !inSpace && !isFirst then
        (' ', i) :: foldFrom true false (i + 1) text
      else
        foldFrom true isFirst (i + 1) text
    else
      (c, i) :: foldFrom false false (i + 1) text

def applyEdit (text replace replacement : List Char) : Option (List Char) :=
  let folded := foldFrom false true 0 text
  let needle := foldWords replace
  if needle = [] then
    none
  else
    match splitFirst needle (folded.map Prod.fst) with
    | none => none
    | some (before, after) =>
      if holds needle after then
        none
      else
        match folded[before.length]?, folded[before.length + needle.length - 1]? with
        | some start, some last =>
          some (text.take start.2 ++ replacement ++ text.drop (last.2 + 1))
        | _, _ => none

section Folding

variable {text pre post : List Char} {inSpace isFirst : Bool} {c : Char} {i k : Nat}

theorem isWhitespace_space : isWhitespace ' ' = true := by
  decide

theorem foldFrom_letter (hc : isWhitespace c = false) (rest : List Char) :
    foldFrom inSpace isFirst i (c :: rest) = (c, i) :: foldFrom false false (i + 1) rest := by
  rw [foldFrom, if_neg (ne_true_of_eq_false hc)]

theorem foldFrom_append_cons (hc : isWhitespace c = false) :
    foldFrom inSpace isFirst i (pre ++ c :: post) =
      foldFrom inSpace isFirst i pre ++
        (c, i + pre.length) :: foldFrom false false (i + pre.length + 1) post := by
  induction pre generalizing inSpace isFirst i with
  | nil => exact foldFrom_letter hc post
  | cons d pre ih =>
    rw [cons_append, foldFrom, foldFrom]
    have hlength : i + (d :: pre).length = i + 1 + pre.length := by
      rw [length_cons]
      omega
    rw [hlength]
    split
    · split
      · rw [ih, cons_append]
      · exact ih
    · rw [ih, cons_append]

/-- What is folded to a character that is no space is that character of the text. -/
theorem exists_of_getElem?_foldFrom {o : Nat} (hc : isWhitespace c = false)
    (h : (foldFrom inSpace isFirst i text)[k]? = some (c, o)) :
    ∃ pre post, text = pre ++ c :: post ∧ o = i + pre.length ∧
      (foldFrom inSpace isFirst i pre).length = k := by
  induction text generalizing inSpace isFirst i k with
  | nil => cases h
  | cons d text ih =>
    rw [foldFrom] at h
    have hlater : ∀ {s e : Bool} {k : Nat}, (foldFrom s e (i + 1) text)[k]? = some (c, o) →
        ∃ pre post, d :: text = (d :: pre) ++ c :: post ∧ o = i + (d :: pre).length ∧
          (foldFrom s e (i + 1) pre).length = k := by
      intro s e k h
      obtain ⟨pre, post, rfl, ho, hk⟩ := ih h
      exact ⟨pre, post, rfl, by rw [ho, length_cons]; omega, hk⟩
    split at h
    · next hd =>
      split at h
      · next hstate =>
        cases k with
        | zero =>
          cases h
          exact absurd (hc.symm.trans isWhitespace_space) Bool.false_ne_true
        | succ k =>
          obtain ⟨pre, post, htext, ho, hk⟩ := hlater h
          refine ⟨d :: pre, post, htext, ho, ?_⟩
          rw [foldFrom, if_pos hd, if_pos hstate, length_cons, hk]
      · next hstate =>
        obtain ⟨pre, post, htext, ho, hk⟩ := hlater h
        refine ⟨d :: pre, post, htext, ho, ?_⟩
        rw [foldFrom, if_pos hd, if_neg hstate, hk]
    · next hd =>
      cases k with
      | zero =>
        cases h
        exact ⟨[], text, rfl, rfl, rfl⟩
      | succ k =>
        obtain ⟨pre, post, htext, ho, hk⟩ := hlater h
        refine ⟨d :: pre, post, htext, ho, ?_⟩
        rw [foldFrom, if_neg hd, length_cons, hk]

/-- A text is empty, or begins with whitespace, or is a word, or is a word before whitespace and
what is behind it. -/
theorem words_induction {P : List Char → Prop} (hnil : P [])
    (hspace : ∀ c rest, isWhitespace c = true → P rest → P (c :: rest))
    (hword : ∀ word, word ≠ [] → (∀ c ∈ word, isWhitespace c = false) → P word)
    (hmore : ∀ word c rest, word ≠ [] → (∀ c ∈ word, isWhitespace c = false) →
      isWhitespace c = true → P rest → P (word ++ c :: rest)) (text : List Char) : P text := by
  cases text with
  | nil => exact hnil
  | cons c rest =>
    by_cases hc : isWhitespace c = true
    · exact hspace c rest hc (words_induction hnil hspace hword hmore rest)
    · have hletter : ∀ d ∈ c :: rest.takeWhile (fun d => !isWhitespace d),
          isWhitespace d = false := by
        refine forall_mem_cons.mpr ⟨eq_false_of_ne_true hc, fun d hd => ?_⟩
        simpa using mem_takeWhile_imp hd
      have hcut := takeWhile_append_dropWhile (p := fun d => !isWhitespace d) (l := rest)
      cases hback : rest.dropWhile fun d => !isWhitespace d with
      | nil =>
        rw [hback, append_nil] at hcut
        exact hword _ (cons_ne_nil c rest) (hcut ▸ hletter)
      | cons d back =>
        rw [hback] at hcut
        have hd : isWhitespace d = true := by
          simpa [hback] using head_dropWhile_not (fun d => !isWhitespace d) (l := rest)
            (by rw [hback]; exact cons_ne_nil d back)
        rw [← hcut, ← cons_append]
        exact hmore _ d back (cons_ne_nil _ _) hletter hd
          (words_induction hnil hspace hword hmore back)
termination_by text.length
decreasing_by
  · simp [*]
  · have hle := length_dropWhile_le (fun d => !isWhitespace d) rest
    rw [hback, length_cons] at hle
    simp only [*, length_cons]
    omega

theorem splitWhitespace_append (hc : isWhitespace c = true) (pre post : List Char) :
    splitWhitespace (pre ++ c :: post) = splitWhitespace pre ++ splitWhitespace post := by
  unfold splitWhitespace
  rw [splitOnP_append_cons pre post hc, filter_append]

theorem splitWhitespace_word {word : List Char} (hne : word ≠ [])
    (hword : ∀ c ∈ word, isWhitespace c = false) : splitWhitespace word = [word] := by
  unfold splitWhitespace
  rw [splitOnP_eq_singleton hword]
  cases word with
  | nil => exact absurd rfl hne
  | cons => rfl

theorem foldWords_space (hc : isWhitespace c = true) (rest : List Char) :
    foldWords (c :: rest) = foldWords rest :=
  congrArg [' '].intercalate (splitWhitespace_append hc [] rest)

theorem foldWords_word {word : List Char} (hne : word ≠ [])
    (hword : ∀ c ∈ word, isWhitespace c = false) : foldWords word = word := by
  rw [foldWords, splitWhitespace_word hne hword, intercalate_singleton]

theorem splitWhitespace_eq_nil_iff : splitWhitespace text = [] ↔ foldWords text = [] := by
  have hsome : [] ∉ splitWhitespace text := by
    simp [splitWhitespace]
  unfold foldWords
  cases hwords : splitWhitespace text with
  | nil => simp
  | cons word words =>
    rw [hwords] at hsome
    have hne : word ≠ [] := fun h => hsome (h ▸ mem_cons_self)
    cases words with
    | nil => simpa using hne
    | cons => simp [intercalate_cons_cons]

theorem foldWords_append {word : List Char} (hne : word ≠ [])
    (hword : ∀ c ∈ word, isWhitespace c = false) (hc : isWhitespace c = true)
    (rest : List Char) : foldWords (word ++ c :: rest) =
      word ++ if foldWords rest = [] then [] else ' ' :: foldWords rest := by
  have hwords : splitWhitespace (word ++ c :: rest) = word :: splitWhitespace rest := by
    rw [splitWhitespace_append hc, splitWhitespace_word hne hword, singleton_append]
  rw [foldWords, hwords]
  cases hrest : splitWhitespace rest with
  | nil => rw [if_pos (splitWhitespace_eq_nil_iff.mp hrest), append_nil,
      intercalate_singleton]
  | cons next words =>
    have hsome : foldWords rest ≠ [] := fun h => by
      rw [splitWhitespace_eq_nil_iff.mpr h] at hrest
      cases hrest
    rw [if_neg hsome, intercalate_cons_cons, foldWords, hrest, append_assoc,
      singleton_append]

/-- A text with no whitespace at its ends. -/
def Tight (text : List Char) : Prop :=
  (∀ c ∈ text.head?, isWhitespace c = false) ∧ ∀ c ∈ text.getLast?, isWhitespace c = false

theorem tight_foldWords (text : List Char) : Tight (foldWords text) := by
  induction text using words_induction with
  | hnil => exact ⟨nofun, nofun⟩
  | hspace c rest hc ih => rwa [foldWords_space hc]
  | hword word hne hword =>
    rw [foldWords_word hne hword]
    exact ⟨fun c hc => hword c (mem_of_mem_head? hc),
      fun c hc => hword c (mem_of_getLast? hc)⟩
  | hmore word c rest hne hword hc ih =>
    rw [foldWords_append hne hword hc]
    refine ⟨fun d hd => hword d (mem_of_mem_head? ?_), fun d hd => ?_⟩
    · rwa [head?_append_of_ne_nil _ hne] at hd
    · split at hd
      · rw [append_nil] at hd
        exact hword d (mem_of_getLast? hd)
      · next hsome =>
        rw [getLast?_append_of_ne_nil _ (cons_ne_nil _ _),
          getLast?_cons_of_ne_nil hsome] at hd
        exact ih.2 d hd

theorem foldFrom_word {word : List Char} (hword : ∀ c ∈ word, isWhitespace c = false)
    (rest : List Char) : (foldFrom false false i (word ++ rest)).map Prod.fst =
      word ++ (foldFrom false false (i + word.length) rest).map Prod.fst := by
  induction word generalizing i with
  | nil => rfl
  | cons c word ih =>
    rw [cons_append, foldFrom_letter (hword c mem_cons_self), map_cons,
      ih fun c hc => hword c (mem_cons_of_mem _ hc), length_cons, cons_append,
      Nat.add_right_comm, Nat.add_assoc]

theorem foldFrom_of_letter (inSpace isFirst : Bool) {word : List Char} (hne : word ≠ [])
    (hword : ∀ c ∈ word, isWhitespace c = false) (rest : List Char) :
    foldFrom inSpace isFirst i (word ++ rest) = foldFrom false false i (word ++ rest) := by
  cases word with
  | nil => exact absurd rfl hne
  | cons c word =>
    have hc := hword c mem_cons_self
    rw [cons_append, foldFrom_letter hc, foldFrom_letter hc]

/-- The loop folds a text to its words with a space between, and a space behind them where
whitespace ends the text. -/
theorem foldFrom_eq (isFirst : Bool) (i : Nat) (text : List Char) :
    ∃ rest, (rest = [] ∨ rest = [' '] ∧ foldWords text ≠ []) ∧
      (foldFrom true isFirst i text).map Prod.fst = foldWords text ++ rest := by
  induction text using words_induction generalizing isFirst i with
  | hnil => exact ⟨[], .inl rfl, rfl⟩
  | hspace c rest hc ih =>
    obtain ⟨back, hback, heq⟩ := ih isFirst (i + 1)
    rw [foldWords_space hc]
    refine ⟨back, hback, ?_⟩
    rw [foldFrom, if_pos hc, Bool.not_true, Bool.false_and, if_neg Bool.false_ne_true, heq]
  | hword word hne hword =>
    have hfold := foldFrom_word (i := i) hword []
    rw [← foldFrom_of_letter true isFirst hne hword] at hfold
    rw [foldWords_word hne hword, append_nil] at *
    exact ⟨[], .inl rfl, hfold⟩
  | hmore word c rest hne hword hc ih =>
    obtain ⟨back, hback, heq⟩ := ih false (i + word.length + 1)
    rw [foldFrom_of_letter true isFirst hne hword, foldFrom_word hword, foldWords_append hne hword hc,
      foldFrom, if_pos hc, Bool.not_false, Bool.and_self, if_pos rfl, map_cons, heq]
    by_cases hnone : foldWords rest = []
    · rw [hback.resolve_right fun h => h.2 hnone, if_pos hnone, hnone, append_nil]
      exact ⟨[' '], .inr ⟨rfl, hne⟩, rfl⟩
    · rw [if_neg hnone]
      exact ⟨back, hback.imp_right fun h => ⟨h.1, append_ne_nil_of_left_ne_nil hne _⟩, by simp⟩

end Folding

section Occurrences

variable {needle text before after : List Char} {k : Nat}

/-- A passage stands at a place of a text; an empty one stands nowhere. -/
def OccursAt (needle text : List Char) (k : Nat) : Prop := needle ≠ [] ∧ needle <+: text.drop k

theorem not_occursAt_of_splitFirst (h : splitFirst needle text = some (before, after))
    (hlt : k < before.length) : ¬ OccursAt needle text k := by
  induction text generalizing before k with
  | nil =>
    unfold splitFirst at h
    split at h
    · cases h
      cases hlt
    · cases h
  | cons c text ih =>
    unfold splitFirst at h
    split at h
    · cases h
      cases hlt
    · next hnot =>
      obtain ⟨⟨before', after'⟩, hsplit, hpair⟩ := map_eq_some_iff.mp h
      cases hpair
      cases k with
      | zero => exact fun hoccurs => hnot (List.isPrefixOf_iff_prefix.mpr hoccurs.2)
      | succ k => exact ih hsplit (Nat.lt_of_succ_lt_succ hlt)

theorem not_occursAt_of_splitFirst_none (h : splitFirst needle text = none) (k : Nat) :
    ¬ OccursAt needle text k := by
  induction text generalizing k with
  | nil =>
    rintro ⟨hne, hoccurs⟩
    rw [drop_nil, prefix_nil] at hoccurs
    exact hne hoccurs
  | cons c text ih =>
    unfold splitFirst at h
    split at h
    · cases h
    · next hnot =>
      cases k with
      | zero => exact fun hoccurs => hnot (List.isPrefixOf_iff_prefix.mpr hoccurs.2)
      | succ k => exact ih (map_eq_none_iff.mp h) k

theorem occursAt_append (hne : needle ≠ []) (before after : List Char) :
    OccursAt needle (before ++ needle ++ after) before.length := by
  refine ⟨hne, ?_⟩
  rw [append_assoc, drop_left]
  exact prefix_append needle after

theorem holds_iff (hne : needle ≠ []) : holds needle text = true ↔ ∃ k, OccursAt needle text k := by
  unfold holds
  cases hsplit : splitFirst needle text with
  | none => simp [not_occursAt_of_splitFirst_none hsplit]
  | some p =>
    refine ⟨fun _ => ⟨p.1.length, ?_⟩, fun _ => rfl⟩
    rw [splitFirst_eq_some hsplit]
    exact occursAt_append hne p.1 p.2

/-- What the search of the text behind the first occurrence misses are the ones that overlap it. -/
theorem holds_after_iff (hne : needle ≠ []) (h : splitFirst needle text = some (before, after)) :
    holds needle after = true ↔
      ∃ k, before.length + needle.length ≤ k ∧ OccursAt needle text k := by
  have hdrop : ∀ n, text.drop (before.length + needle.length + n) = after.drop n := by
    intro n
    rw [splitFirst_eq_some h, ← length_append, drop_length_add_append]
  rw [holds_iff hne]
  constructor
  · rintro ⟨k, hoccurs⟩
    refine ⟨_, Nat.le_add_right _ k, hne, ?_⟩
    rw [hdrop]
    exact hoccurs.2
  · rintro ⟨k, hle, hoccurs⟩
    obtain ⟨n, rfl⟩ := Nat.exists_eq_add_of_le hle
    refine ⟨n, hne, ?_⟩
    rw [← hdrop]
    exact hoccurs.2

/-- A space behind the text is of no use to a passage that ends with none. -/
theorem occursAt_append_space (hspace : ∀ c ∈ needle.getLast?, isWhitespace c = false) :
    OccursAt needle (text ++ [' ']) k ↔ OccursAt needle text k := by
  refine and_congr_right fun hne => ⟨?_, fun h => h.trans ((prefix_append text [' ']).drop k)⟩
  rintro ⟨after, heq⟩
  rcases Nat.lt_or_ge text.length k with hlt | hle
  · have hnil : (text ++ [' ']).drop k = [] :=
      drop_eq_nil_of_le (by rw [length_append, length_singleton]; exact hlt)
    rw [hnil] at heq
    exact absurd (append_eq_nil_iff.mp heq).1 hne
  · rw [drop_append_of_le_length hle] at heq
    rcases eq_nil_or_concat' after with rfl | ⟨after, c, rfl⟩
    · rw [append_nil] at heq
      have hlast := hspace ' ' (by rw [heq, getLast?_concat]; rfl)
      exact absurd (hlast.symm.trans isWhitespace_space) Bool.false_ne_true
    · rw [← append_assoc] at heq
      exact ⟨after, (append_inj' heq rfl).1⟩

end Occurrences

section Replacement

variable {text replace replacement before after out : List Char} {k : Nat}

theorem foldFrom_first (i : Nat) (text : List Char) :
    foldFrom false true i text = foldFrom true true i text := by
  cases text with
  | nil => rfl
  | cons c text => simp [foldFrom]

/-- A passage of the folded text is one of the text, at the offsets of its ends. -/
theorem exists_passage (hne : foldWords replace ≠ [])
    (h : (foldFrom false true 0 text).map Prod.fst = before ++ foldWords replace ++ after) :
    ∃ start last pre passage post, (foldFrom false true 0 text)[before.length]? = some start ∧
      (foldFrom false true 0 text)[before.length + (foldWords replace).length - 1]? = some last ∧
      text = pre ++ passage ++ post ∧ start.2 = pre.length ∧
      last.2 + 1 = (pre ++ passage).length ∧ foldWords passage = foldWords replace ∧
      Tight passage := by
  obtain ⟨hhead, hlast⟩ := tight_foldWords replace
  generalize foldWords replace = needle at *
  obtain ⟨c, needle', hneedle⟩ := exists_cons_of_ne_nil hne
  have hc : isWhitespace c = false := hhead c (by rw [hneedle]; rfl)
  have hfirst := congrArg (·[before.length]?) h
  simp only [getElem?_map, append_assoc, getElem?_append_right (Nat.le_refl _),
    Nat.sub_self, hneedle, cons_append, getElem?_cons_zero] at hfirst
  obtain ⟨⟨c, o⟩, hstart, rfl⟩ := map_eq_some_iff.mp hfirst
  obtain ⟨pre, rest, htext, ho, hlength⟩ := exists_of_getElem?_foldFrom hc hstart
  rw [Nat.zero_add] at ho
  have hcut : foldFrom false true 0 text =
      foldFrom false true 0 pre ++ foldFrom true true o (c :: rest) := by
    rw [htext, foldFrom_append_cons hc, Nat.zero_add, ← ho, foldFrom_letter hc]
  rw [hcut, map_append, append_assoc] at h
  have hpassage := (append_inj h ((length_map _).trans hlength)).2
  obtain ⟨front, d, rfl⟩ := (eq_nil_or_concat' needle).resolve_left hne
  have hd : isWhitespace d = false := hlast d (by rw [getLast?_concat]; rfl)
  have hend := congrArg (·[front.length]?) hpassage
  simp only [getElem?_map, append_assoc, getElem?_append_right (Nat.le_refl _),
    Nat.sub_self, cons_append, getElem?_cons_zero] at hend
  obtain ⟨⟨d, o'⟩, hstop, rfl⟩ := map_eq_some_iff.mp hend
  obtain ⟨mid, post, hrest, ho', hlength'⟩ := exists_of_getElem?_foldFrom hd hstop
  rw [hrest, foldFrom_append_cons hd, map_append, append_assoc] at hpassage
  have hfront := (append_inj hpassage ((length_map _).trans hlength')).1
  have hwhole : (foldFrom true true o (mid ++ [d])).map Prod.fst = front ++ [d] := by
    rw [foldFrom_append_cons hd, map_append, hfront]
    rfl
  obtain ⟨back, hback, hwords⟩ := foldFrom_eq true o (mid ++ [d])
  have hnone : back = [] := by
    refine hback.resolve_right fun hspace => ?_
    rw [hwhole, hspace.1] at hwords
    have hsame := append_inj_right' hwords rfl
    rw [singleton_inj.mp hsame] at hd
    exact Bool.false_ne_true (hd.symm.trans isWhitespace_space)
  rw [hwhole, hnone, append_nil] at hwords
  refine ⟨(c, o), (d, o'), pre, mid ++ [d], post, hstart, ?_, ?_, ho, ?_, hwords.symm, ?_, ?_⟩
  · rw [hcut, length_append, length_singleton, ← Nat.add_assoc, Nat.add_sub_cancel, ← hlength,
      getElem?_append_right (Nat.le_add_right _ _), Nat.add_sub_cancel_left]
    exact hstop
  · rw [htext, hrest]
    simp
  · rw [ho', ho]
    simp [Nat.add_assoc]
  · intro e he
    cases mid with
    | nil =>
      cases he
      exact hd
    | cons e' mid =>
      cases he
      cases hrest
      exact hc
  · intro e he
    rw [getLast?_concat] at he
    cases he
    exact hd

/-- A passage stands at the same places of a text as the loop folds it. -/
theorem occursAt_foldFrom : OccursAt (foldWords replace) ((foldFrom false true 0 text).map Prod.fst) k ↔
    OccursAt (foldWords replace) (foldWords text) k := by
  obtain ⟨back, hback, heq⟩ := foldFrom_eq true 0 text
  rw [foldFrom_first, heq]
  rcases hback with rfl | ⟨rfl, _⟩
  · rw [append_nil]
  · exact occursAt_append_space (tight_foldWords replace).2

/-- A fix is applied where the passage stands, and every other place where it stands is inside. -/
theorem isSome_applyEdit_iff : (applyEdit text replace replacement).isSome = true ↔
    ∃ k, OccursAt (foldWords replace) (foldWords text) k ∧
      ∀ j, OccursAt (foldWords replace) (foldWords text) j →
        k ≤ j ∧ j < k + (foldWords replace).length := by
  simp only [← occursAt_foldFrom]
  unfold applyEdit
  by_cases hne : foldWords replace = []
  · simp [hne, OccursAt]
  · simp only [if_neg hne]
    cases hsplit : splitFirst (foldWords replace) ((foldFrom false true 0 text).map Prod.fst) with
    | none => simp [not_occursAt_of_splitFirst_none hsplit]
    | some p =>
      obtain ⟨before, after⟩ := p
      have htext := splitFirst_eq_some hsplit
      obtain ⟨start, last, _, _, _, hstart, hlast, _⟩ := exists_passage hne htext
      have hoccurs := occursAt_append hne before after
      rw [← htext] at hoccurs
      simp only [hstart, hlast]
      by_cases hmore : holds (foldWords replace) after = true
      · rw [if_pos hmore]
        obtain ⟨j, hle, hj⟩ := (holds_after_iff hne hsplit).mp hmore
        refine iff_of_false (by simp) ?_
        rintro ⟨k, _, hall⟩
        have hk := hall before.length hoccurs
        have hj' := hall j hj
        omega
      · rw [if_neg hmore]
        refine iff_of_true rfl ⟨before.length, hoccurs, fun j hj => ⟨?_, ?_⟩⟩
        · exact Nat.not_lt.mp fun hlt => not_occursAt_of_splitFirst hsplit hlt hj
        · exact Nat.not_le.mp fun hle => hmore ((holds_after_iff hne hsplit).mpr ⟨j, hle, hj⟩)

def Replaced (text replace replacement out : List Char) : Prop :=
  ∃ pre passage post, text = pre ++ passage ++ post ∧ foldWords passage = foldWords replace ∧
    Tight passage ∧ out = pre ++ replacement ++ post

theorem replaced_of_applyEdit (h : applyEdit text replace replacement = some out) :
    Replaced text replace replacement out := by
  unfold applyEdit at h
  dsimp only at h
  split at h
  · cases h
  · next hne =>
    split at h
    · cases h
    · next before after hsplit =>
      obtain ⟨start, last, pre, passage, post, hstart, hlast, htext, hpre, hpassage, hfold, htight⟩ :=
        exists_passage hne (splitFirst_eq_some hsplit)
      simp only [hstart, hlast] at h
      split at h
      · cases h
      · refine ⟨pre, passage, post, htext, hfold, htight, (some.inj h).symm.trans ?_⟩
        rw [hpre, hpassage, htext, drop_left, append_assoc pre, take_left]

/-- Every place where the passage stands overlaps the first one, and there are several. -/
def OnlyOverlaps (text replace : List Char) : Prop :=
  ∃ i j, i < j ∧ OccursAt (foldWords replace) (foldWords text) i ∧
    OccursAt (foldWords replace) (foldWords text) j ∧
    ∀ k, OccursAt (foldWords replace) (foldWords text) k →
      i ≤ k ∧ k < i + (foldWords replace).length

/-- A fix is applied exactly where its passage stands at one place, and to that passage. -/
def AppliedWhereChecked (text replace replacement : List Char) : Prop :=
  ((applyEdit text replace replacement).isSome = true ↔
      ∃! k, OccursAt (foldWords replace) (foldWords text) k) ∧
    ∀ out, applyEdit text replace replacement = some out → Replaced text replace replacement out

theorem appliedWhereChecked_iff :
    AppliedWhereChecked text replace replacement ↔ ¬ OnlyOverlaps text replace := by
  unfold AppliedWhereChecked
  rw [isSome_applyEdit_iff]
  constructor
  · rintro ⟨hone, _⟩ ⟨i, j, hlt, hi, hj, hall⟩
    obtain ⟨k, _, hk⟩ := hone.mp ⟨i, hi, hall⟩
    exact absurd ((hk i hi).trans (hk j hj).symm) (Nat.ne_of_lt hlt)
  · intro h
    refine ⟨⟨?_, ?_⟩, fun out => replaced_of_applyEdit⟩
    · rintro ⟨k, hk, hall⟩
      refine ⟨k, hk, fun j hj => ?_⟩
      by_contra hne
      exact h ⟨k, j, Nat.lt_of_le_of_ne (hall j hj).1 (Ne.symm hne), hk, hj, hall⟩
    · rintro ⟨k, hk, hone⟩
      refine ⟨k, hk, fun j hj => ?_⟩
      rw [hone j hj]
      exact ⟨Nat.le_refl k, Nat.lt_add_of_pos_right (length_pos_of_ne_nil hk.1)⟩

end Replacement

def blank (line : List Char) : Bool := (Rust.trim line).isEmpty

/-- A line that `insert_after` takes for one end of a fenced block. -/
def isFence (line : List Char) : Bool :=
  ['`', '`', '`'].isPrefixOf (Rust.trimStart line) ||
    ['~', '~', '~'].isPrefixOf (Rust.trimStart line)

/-- The index of the last line of the block that a line is in. -/
def blockEnd (lines : List (List Char)) (line : Nat) : Nat :=
  line + ((lines.drop (line + 1)).takeWhile fun l => !blank l && !isFence l).length

/-- What `insert_after` lets pass. -/
def Placed (text : List Char) (line : Nat) (sentence : List Char) : Prop :=
  foldWords sentence ≠ [] ∧ line ≠ 0 ∧ line ≤ (linesOf text).length ∧
    ((linesOf text).take line).countP isFence % 2 ≠ 1 ∧
    blank ((linesOf text).getD (line - 1) []) = false

instance (text : List Char) (line : Nat) (sentence : List Char) :
    Decidable (Placed text line sentence) :=
  inferInstanceAs (Decidable (_ ∧ _))

/-- The lines with the sentence behind a block, and a blank line on each side of it. -/
def withSentence (lines : List (List Char)) (line : Nat) (sentence : List Char) :
    List (List Char) :=
  let back := lines.drop (blockEnd lines (line - 1) + 1)
  let gap := if back.head?.any (fun l => !blank l) then [[]] else []
  lines.take (blockEnd lines (line - 1) + 1) ++ [] :: foldWords sentence :: (gap ++ back)

/-- The line break that `insert_after` writes. -/
def lineBreak (text : List Char) : List Char :=
  if ['\r', '\n'] <:+: text then ['\r', '\n'] else ['\n']

def insertAfter (text : List Char) (line : Nat) (sentence : List Char) : Option (List Char) :=
  if Placed text line sentence then
    some ((lineBreak text).intercalate (withSentence (linesOf text) line sentence) ++
      if text.getLast? = some '\n' then lineBreak text else [])
  else
    none

section Breaks

variable {text pre post line rest nl : List Char} {p : List Char}

/-- What is before each line feed of a text, from the one before it on. -/
def broken (text : List Char) : List (List Char) := (text.splitOn '\n').dropLast

/-- A text that ends with a line break, or is empty. -/
def Whole (text : List Char) : Prop := text = [] ∨ text.getLast? = some '\n'

theorem broken_last (h : '\n' ∉ line) : broken line = [] := by
  rw [broken, splitOn_eq_singleton h]
  rfl

theorem broken_append_feed (h : '\n' ∉ line) (rest : List Char) :
    broken (line ++ '\n' :: rest) = line :: broken rest := by
  rw [broken, splitOn_append_cons_self, splitOn_eq_singleton h, singleton_append,
    dropLast_cons_of_ne_nil (splitOn_ne_nil _ _)]
  rfl

theorem Whole.of_append_feed (h : Whole (line ++ '\n' :: rest)) : Whole rest := by
  rcases h with h | h
  · simp at h
  · cases rest with
    | nil => exact .inl rfl
    | cons c rest => exact .inr (by simpa using h)

theorem Whole.append (pre : List Char) (h : post.getLast? = some '\n') : Whole (pre ++ post) :=
  .inr (by rw [getLast?_append, h]; rfl)

theorem broken_append (h : Whole pre) (post : List Char) :
    broken (pre ++ post) = broken pre ++ broken post := by
  induction pre using lines_induction with
  | hlast line hline =>
    rcases h with rfl | h
    · rfl
    · exact absurd (mem_of_getLast? h) hline
  | hmore line rest hline ih =>
    rw [append_assoc, cons_append, broken_append_feed hline, broken_append_feed hline,
      ih h.of_append_feed, cons_append]

theorem mem_broken_append (h : p ∈ broken pre) (post : List Char) : p ∈ broken (pre ++ post) := by
  induction pre using lines_induction with
  | hlast line hline =>
    rw [broken_last hline] at h
    cases h
  | hmore line rest hline ih =>
    rw [broken_append_feed hline] at h
    rw [append_assoc, cons_append, broken_append_feed hline]
    exact (mem_cons.mp h).elim (fun hp => hp ▸ mem_cons_self)
      fun hp => mem_cons_of_mem _ (ih hp)

theorem infix_iff_mem_broken :
    ['\r', '\n'] <:+: text ↔ ∃ p ∈ broken text, p.getLast? = some '\r' := by
  induction text using lines_induction with
  | hlast line hline =>
    rw [broken_last hline]
    refine iff_of_false (fun h => hline (h.subset (by simp))) (by simp)
  | hmore line rest hline ih =>
    rw [broken_append_feed hline]
    simp only [mem_cons, or_and_right, exists_or, exists_eq_left, ← ih]
    constructor
    · rintro ⟨before, after, heq⟩
      by_cases hmem : '\n' ∈ before
      · obtain ⟨line', before', rfl, hline'⟩ := eq_append_cons_of_mem hmem
        rw [append_assoc, append_assoc, cons_append] at heq
        obtain ⟨_, rfl⟩ := append_separator_injective hline' hline heq
        exact .inr ⟨before', after, append_assoc ..⟩
      · have heq' : (before ++ ['\r']) ++ '\n' :: after = line ++ '\n' :: rest := by
          rw [← heq]
          simp
        obtain ⟨rfl, _⟩ := append_separator_injective (by simpa using hmem) hline heq'
        exact .inl getLast?_concat
    · rintro (hlast | ⟨before, after, rfl⟩)
      · obtain ⟨front, rfl⟩ := getLast?_eq_some_iff.mp hlast
        exact ⟨front, rest, by simp⟩
      · exact ⟨line ++ '\n' :: before, after, by simp⟩

/-- Every line feed of a text ends a line break of one kind. -/
def BrokenBy (nl text : List Char) : Prop := ∀ p ∈ broken text, withoutReturn p ++ nl = p ++ ['\n']

/-- A text with a line break behind its last line. -/
def closed (nl text : List Char) : List Char :=
  if text = [] ∨ text.getLast? = some '\n' then text else text ++ nl

theorem closed_append_feed (line rest : List Char) :
    closed nl (line ++ '\n' :: rest) = line ++ '\n' :: closed nl rest := by
  unfold closed
  cases rest with
  | nil => simp
  | cons c rest =>
    have hlast : (line ++ '\n' :: c :: rest).getLast? = (c :: rest).getLast? := by
      rw [getLast?_append_of_ne_nil _ (cons_ne_nil _ _), getLast?_cons_cons]
    by_cases hfeed : (c :: rest).getLast? = some '\n' <;> simp [hlast, hfeed]

/-- The lines of a text with their line break are the text. -/
theorem flatMap_linesOf (h : BrokenBy nl text) :
    (linesOf text).flatMap (fun l => l ++ nl) = closed nl text := by
  induction text using lines_induction with
  | hlast line hline =>
    rw [linesOf_last hline, closed]
    have hlast : line.getLast? ≠ some '\n' := fun h => hline (mem_of_getLast? h)
    by_cases hnil : line = [] <;> simp [hnil, hlast]
  | hmore line rest hline ih =>
    unfold BrokenBy at h ih
    rw [broken_append_feed hline, forall_mem_cons] at h
    rw [linesOf_append hline, flatMap_cons, ih h.2, h.1, closed_append_feed]
    simp

/-- A text cut behind some of its lines. -/
theorem exists_cut (n : Nat) (text : List Char) :
    ∃ pre post, text = pre ++ post ∧ linesOf pre = (linesOf text).take n ∧
      linesOf post = (linesOf text).drop n ∧ (post = [] ∨ Whole pre) := by
  induction text using lines_induction generalizing n with
  | hlast line hline =>
    cases n with
    | zero => exact ⟨[], line, rfl, rfl, rfl, .inr (.inl rfl)⟩
    | succ n =>
      refine ⟨line, [], (append_nil line).symm, ?_, ?_, .inl rfl⟩
      · rw [linesOf_last hline]
        split <;> simp
      · rw [linesOf_last hline]
        split <;> simp [linesOf]
  | hmore line rest hline ih =>
    cases n with
    | zero => exact ⟨[], _, rfl, rfl, rfl, .inr (.inl rfl)⟩
    | succ n =>
      obtain ⟨pre, post, rfl, hpre, hpost, hwhole⟩ := ih n
      refine ⟨line ++ '\n' :: pre, post, by simp, ?_, ?_, hwhole.imp_right ?_⟩
      · rw [linesOf_append hline, linesOf_append hline, take_succ_cons, hpre]
      · rw [linesOf_append hline, drop_succ_cons, hpost]
      · rintro (rfl | hlast)
        · exact .append _ rfl
        · exact .append _ (by rw [getLast?_cons, hlast]; rfl)

theorem mem_broken_of_cut (hwhole : post = [] ∨ Whole pre) :
    p ∈ broken (pre ++ post) ↔ p ∈ broken pre ∨ p ∈ broken post := by
  rcases hwhole with rfl | hwhole
  · rw [append_nil]
    exact (or_iff_left not_mem_nil).symm
  · rw [broken_append hwhole, mem_append]

theorem intercalate_append (ls : List (List Char)) (hne : ls ≠ []) :
    nl.intercalate ls ++ nl = ls.flatMap fun l => l ++ nl := by
  induction ls with
  | nil => exact absurd rfl hne
  | cons l ls ih =>
    cases ls with
    | nil => simp
    | cons l' ls =>
      rw [intercalate_cons_cons, flatMap_cons, ← ih (cons_ne_nil _ _)]
      simp

end Breaks

section Fences

variable {line : List Char} {lines : List (List Char)}

/-- The character of a code fence, how often it stands there, and what is behind it. -/
def fenceOf (line : List Char) : Option (Char × Nat × List Char) :=
  match line.dropWhile fun c => c = ' ' with
  | [] => none
  | c :: rest =>
    let run := (rest.takeWhile fun d => d = c).length + 1
    if (c = '`' ∨ c = '~') ∧ 3 ≤ run ∧ line.length ≤ rest.length + 4 then
      some (c, run, rest.drop (run - 1))
    else
      none

/-- A fenced block is opened, or closed by the same character as often or more. -/
def fenceStep (opened : Option (Char × Nat)) (line : List Char) : Option (Char × Nat) :=
  match opened, fenceOf line with
  | none, some (c, run, info) => if c = '`' ∧ '`' ∈ info then none else some (c, run)
  | some (c, n), some (c', run, info) =>
    if c' = c ∧ n ≤ run ∧ ∀ x ∈ info, x = ' ' ∨ x = '\t' then none else some (c, n)
  | opened, none => opened

/-- The fenced block that is open behind some lines. -/
def openFence (lines : List (List Char)) : Option (Char × Nat) := lines.foldl fenceStep none

theorem isFence_of_fenceOf {f : Char × Nat × List Char} (h : fenceOf line = some f) :
    isFence line = true := by
  unfold fenceOf at h
  split at h
  · cases h
  · next c rest hbody =>
    dsimp only at h
    split at h
    · next hfence =>
      obtain ⟨hc, hrun, _⟩ := hfence
      have hletter : isWhitespace c = false := by
        rcases hc with rfl | rfl <;> decide
      have htrim : Rust.trimStart line = c :: rest := by
        rw [Rust.trimStart, ← takeWhile_append_dropWhile (p := fun c => c = ' ') (l := line),
          hbody, dropWhile_append_of_pos, dropWhile_cons_of_neg]
        · simp [hletter]
        · intro d hd
          have hspace := mem_takeWhile_imp hd
          rw [of_decide_eq_true hspace]
          exact isWhitespace_space
      obtain ⟨rest', rfl⟩ : ∃ rest', rest = c :: c :: rest' := by
        rcases rest with _ | ⟨d, _ | ⟨e, rest⟩⟩
        · simp at hrun
        · by_cases hd : d = c <;> simp [hd] at hrun
        · by_cases hd : d = c <;> by_cases he : e = c <;> simp [hd, he] at hrun
          exact ⟨rest, by rw [hd, he]⟩
      unfold isFence
      rw [htrim]
      rcases hc with rfl | rfl <;> simp
    · cases h

theorem openFence_append (h : ∀ l ∈ lines, isFence l = false) (before : List (List Char)) :
    openFence (before ++ lines) = openFence before := by
  unfold openFence
  rw [foldl_append]
  induction lines with
  | nil => rfl
  | cons l lines ih =>
    have hnone : fenceOf l = none := by
      refine eq_none_iff_forall_ne_some.mpr fun f hf => ?_
      exact absurd ((h l mem_cons_self).symm.trans (isFence_of_fenceOf hf)) Bool.false_ne_true
    have hstep : ∀ opened, fenceStep opened l = opened := by
      intro opened
      unfold fenceStep
      rw [hnone]
      cases opened <;> rfl
    rw [foldl_cons, hstep]
    exact ih fun l hl => h l (mem_cons_of_mem _ hl)

/-- A block ends in the fenced block that its line is in. -/
theorem openFence_blockEnd {n : Nat} (hn : n ≠ 0) :
    openFence (lines.take (blockEnd lines (n - 1) + 1)) = openFence (lines.take n) := by
  have htake : lines.take (blockEnd lines (n - 1) + 1) = lines.take n ++
      (lines.drop n).takeWhile fun l => !blank l && !isFence l := by
    have hwhole := prefix_iff_eq_take.mp
      (List.takeWhile_prefix (l := lines.drop n) fun l => !blank l && !isFence l)
    unfold blockEnd
    rw [Nat.sub_add_cancel (Nat.one_le_iff_ne_zero.mpr hn), Nat.add_right_comm,
      Nat.sub_add_cancel (Nat.one_le_iff_ne_zero.mpr hn), take_add, ← hwhole]
  rw [htake]
  refine openFence_append (fun l hl => ?_) _
  have hl' := mem_takeWhile_imp hl
  simp only [Bool.and_eq_true, Bool.not_eq_true'] at hl'
  exact hl'.2

end Fences

section Insertion

variable {text sentence out : List Char} {line : Nat}

/-- A text whose line breaks are of both kinds. -/
def Mixed (text : List Char) : Prop :=
  (∃ p ∈ broken text, p.getLast? = some '\r') ∧ ∃ p ∈ broken text, p.getLast? ≠ some '\r'

/-- A sentence is added behind the block of a line, as a paragraph outside any fenced block, and
every line of the text is kept with its line break. -/
def Added (text : List Char) (line : Nat) (sentence out : List Char) : Prop :=
  ∃ nl pre post back, (nl = ['\n'] ∨ nl = ['\r', '\n']) ∧ text = pre ++ post ∧
    (post = [] ∨ Whole pre) ∧
    linesOf pre = (linesOf text).take (blockEnd (linesOf text) (line - 1) + 1) ∧
    openFence (linesOf pre) = none ∧
    out = closed nl pre ++ nl ++ foldWords sentence ++ back ++ post ∧
    (back = [] ∧ post = [] ∨ back = nl ∧ (∀ l ∈ (linesOf post).head?, blank l = true) ∨
      back = nl ++ nl)

theorem brokenBy_of_not_mixed (h : ¬ Mixed text) : BrokenBy (lineBreak text) text := by
  intro p hp
  unfold lineBreak
  split
  · next hreturn =>
    have hlast : p.getLast? = some '\r' := by
      by_contra hlast
      exact h ⟨infix_iff_mem_broken.mp hreturn, p, hp, hlast⟩
    obtain ⟨q, rfl⟩ := getLast?_eq_some_iff.mp hlast
    simp [withoutReturn]
  · next hreturn =>
    have hlast : p.getLast? ≠ some '\r' := fun hlast =>
      hreturn (infix_iff_mem_broken.mpr ⟨p, hp, hlast⟩)
    rw [withoutReturn, if_neg hlast]

theorem insertAfter_eq_some_iff : insertAfter text line sentence = some out ↔
    Placed text line sentence ∧ out ++ (if text.getLast? = some '\n' then [] else lineBreak text) =
      (withSentence (linesOf text) line sentence).flatMap fun l => l ++ lineBreak text := by
  have hne : withSentence (linesOf text) line sentence ≠ [] := by
    simp [withSentence]
  rw [← intercalate_append _ hne]
  unfold insertAfter
  by_cases hfeed : text.getLast? = some '\n' <;> simp [hfeed, eq_comm]

theorem added_of_insertAfter (hmixed : ¬ Mixed text)
    (hfence : openFence ((linesOf text).take line) = none)
    (h : insertAfter text line sentence = some out) : Added text line sentence out := by
  obtain ⟨hplaced, hout⟩ := insertAfter_eq_some_iff.mp h
  have hbroken := brokenBy_of_not_mixed hmixed
  have hnl : lineBreak text = ['\n'] ∨ lineBreak text = ['\r', '\n'] := by
    unfold lineBreak
    split <;> simp
  generalize lineBreak text = nl at *
  obtain ⟨pre, post, htext, hpre, hpost, hwhole⟩ :=
    exists_cut (blockEnd (linesOf text) (line - 1) + 1) text
  have hpre' : BrokenBy nl pre := fun p hp =>
    hbroken p (htext ▸ (mem_broken_of_cut hwhole).mpr (.inl hp))
  have hpost' : BrokenBy nl post := fun p hp =>
    hbroken p (htext ▸ (mem_broken_of_cut hwhole).mpr (.inr hp))
  rw [← openFence_blockEnd hplaced.2.1, ← hpre] at hfence
  unfold withSentence at hout
  rw [← hpre, ← hpost] at hout
  simp only [flatMap_append, flatMap_cons, flatMap_linesOf hpre', flatMap_linesOf hpost',
    nil_append] at hout
  cases post with
  | nil =>
    have hnone : out ++ (if text.getLast? = some '\n' then [] else nl) =
        closed nl pre ++ nl ++ foldWords sentence ++ nl := by
      rw [hout]
      simp [linesOf, closed]
    by_cases hfeed : text.getLast? = some '\n'
    · rw [if_pos hfeed, append_nil] at hnone
      exact ⟨nl, pre, [], nl, hnl, htext, hwhole, hpre, hfence, by rw [hnone, append_nil],
        .inr (.inl ⟨rfl, nofun⟩)⟩
    · rw [if_neg hfeed] at hnone
      exact ⟨nl, pre, [], [], hnl, htext, hwhole, hpre, hfence,
        by simpa using append_cancel_right hnone, .inl ⟨rfl, rfl⟩⟩
  | cons c post =>
    have hlast : text.getLast? = (c :: post).getLast? := by
      rw [htext, getLast?_append_of_ne_nil _ (cons_ne_nil c post)]
    have hclosed : closed nl (c :: post) =
        c :: post ++ if text.getLast? = some '\n' then [] else nl := by
      rw [hlast, closed]
      split <;> simp_all
    rw [hclosed] at hout
    simp only [← append_assoc] at hout
    have hwhole' := append_cancel_right hout
    by_cases hnext : (linesOf (c :: post)).head?.any (fun l => !blank l) = true
    · rw [if_pos hnext] at hwhole'
      exact ⟨nl, pre, c :: post, nl ++ nl, hnl, htext, hwhole, hpre, hfence,
        by simpa using hwhole', .inr (.inr rfl)⟩
    · rw [if_neg hnext] at hwhole'
      refine ⟨nl, pre, c :: post, nl, hnl, htext, hwhole, hpre, hfence, by simpa using hwhole',
        .inr (.inl ⟨rfl, fun l hl => ?_⟩)⟩
      by_contra hnot
      exact hnext ((Option.any_eq_true _ _).mpr ⟨l, hl, by simpa using hnot⟩)

theorem not_feed_mem_foldWords (text : List Char) : '\n' ∉ foldWords text := by
  induction text using words_induction with
  | hnil => exact not_mem_nil
  | hspace c rest hc ih => rwa [foldWords_space hc]
  | hword word hne hword =>
    rw [foldWords_word hne hword]
    exact fun h => absurd (hword _ h) (by decide)
  | hmore word c rest hne hword hc ih =>
    have hfeed : '\n' ∉ word := fun h => absurd (hword _ h) (by decide)
    rw [foldWords_append hne hword hc]
    split <;> simp [hfeed, ih]

theorem getLast?_of_broken_flatMap {ls : List (List Char)} (h : ∀ l ∈ ls, '\n' ∉ l) {p : List Char}
    (hp : p ∈ broken (ls.flatMap fun l => l ++ ['\r', '\n'])) : p.getLast? = some '\r' := by
  induction ls with
  | nil => cases hp
  | cons l ls ih =>
    obtain ⟨hl, hls⟩ := forall_mem_cons.mp h
    rw [flatMap_cons, append_assoc, show ∀ rest, l ++ (['\r', '\n'] ++ rest) =
      (l ++ ['\r']) ++ '\n' :: rest by simp, broken_append_feed (by simpa using hl)] at hp
    rcases mem_cons.mp hp with rfl | hp
    · exact getLast?_concat
    · exact ih hls hp

theorem not_mixed_of_added (hadded : Added text line sentence out)
    (h : insertAfter text line sentence = some out) : ¬ Mixed text := by
  rintro ⟨hreturn, p, hp, hlast⟩
  apply hlast
  obtain ⟨nl, pre, post, back, hnl, rfl, hwhole, _, _, hout, hback⟩ := hadded
  have hpout : p ∈ broken out := by
    rw [hout]
    rcases (mem_broken_of_cut hwhole).mp hp with hp | hp
    · have hclosed : p ∈ broken (closed nl pre) := by
        unfold closed
        split
        · exact hp
        · exact mem_broken_append hp nl
      simp only [append_assoc]
      exact mem_broken_append hclosed _
    · have hend : Whole (closed nl pre ++ nl ++ foldWords sentence ++ back) := by
        rcases hback with ⟨_, rfl⟩ | ⟨rfl, _⟩ | rfl
        · cases hp
        · rcases hnl with rfl | rfl <;> exact .append _ rfl
        · rcases hnl with rfl | rfl <;> exact .append _ rfl
      rw [broken_append hend]
      exact mem_append_right _ hp
  have hlines : ∀ l ∈ withSentence (linesOf (pre ++ post)) line sentence, '\n' ∉ l := by
    intro l hl
    simp only [withSentence, mem_append, mem_cons] at hl
    rcases hl with hl | rfl | rfl | hl | hl
    · exact not_feed_mem_linesOf (mem_of_mem_take hl)
    · exact not_mem_nil
    · exact not_feed_mem_foldWords sentence
    · split at hl
      · rw [mem_singleton.mp hl]
        exact not_mem_nil
      · cases hl
    · exact not_feed_mem_linesOf (mem_of_mem_drop hl)
  have hjoined := (insertAfter_eq_some_iff.mp h).2
  rw [lineBreak, if_pos (infix_iff_mem_broken.mpr hreturn)] at hjoined
  exact getLast?_of_broken_flatMap hlines (hjoined ▸ mem_broken_append hpout _)

def AddedApart (text : List Char) (line : Nat) (sentence : List Char) : Prop :=
  ∀ out, insertAfter text line sentence = some out → Added text line sentence out

theorem addedApart_iff : AddedApart text line sentence ↔
    (Placed text line sentence → ¬ Mixed text ∧ openFence ((linesOf text).take line) = none) := by
  constructor
  · intro h hplaced
    obtain ⟨out, hout⟩ : ∃ out, insertAfter text line sentence = some out := ⟨_, if_pos hplaced⟩
    have hadded := h out hout
    refine ⟨not_mixed_of_added hadded hout, ?_⟩
    obtain ⟨_, _, _, _, _, _, _, hpre, hfence, _⟩ := hadded
    rwa [hpre, openFence_blockEnd hplaced.2.1] at hfence
  · intro h out hout
    obtain ⟨hmixed, hfence⟩ := h (insertAfter_eq_some_iff.mp hout).1
    exact added_of_insertAfter hmixed hfence hout

/-- A passage is replaced, and a sentence is added, where the fix was checked: exactly when no
occurrence of the passage overlaps the only other ones, and a sentence goes neither into a text
with line breaks of both kinds nor into a fenced block. -/
theorem fixes_where_checked_iff (text replace replacement : List Char) (line : Nat)
    (sentence : List Char) :
    AppliedWhereChecked text replace replacement ∧ AddedApart text line sentence ↔
      ¬ OnlyOverlaps text replace ∧
        (Placed text line sentence →
          ¬ Mixed text ∧ openFence ((linesOf text).take line) = none) :=
  and_congr appliedWhereChecked_iff addedApart_iff

/-- A passage that overlaps itself is replaced at its first place; a sentence is put into a block
that tildes open, and the line feeds of a text become line breaks of the other kind. -/
theorem fixes_go_astray :
    ¬ AppliedWhereChecked "aaa".toList "aa".toList "b".toList ∧
      ¬ AddedApart "~~~\n```\nx\n".toList 3 "S".toList ∧
      ¬ AddedApart "a\r\nb\n".toList 2 "S".toList := by
  refine ⟨?_, ?_, ?_⟩
  · rintro ⟨hone, _⟩
    obtain ⟨k, _, hk⟩ := hone.mp (by decide +kernel)
    have hfirst := hk 0 ⟨by decide +kernel, by decide +kernel⟩
    have hsecond := hk 1 ⟨by decide +kernel, by decide +kernel⟩
    exact absurd (hfirst.trans hsecond.symm) (by decide)
  · intro h
    have hfence := (addedApart_iff.mp h (by decide +kernel)).2
    revert hfence
    decide +kernel
  · intro h
    refine (addedApart_iff.mp h (by decide +kernel)).1 ⟨?_, ?_⟩
    · exact ⟨"a\r".toList, by decide +kernel, by decide +kernel⟩
    · exact ⟨"b".toList, by decide +kernel, by decide +kernel⟩

end Insertion

end FixEdits
end Documents
end StudioWeb
