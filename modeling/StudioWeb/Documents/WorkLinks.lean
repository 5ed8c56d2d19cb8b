import Mathlib
import StudioWeb.Library.WholeTokens

/-!
# The work that names an identifier of the documents

`link` of `documents/spec_model/work.rs`.  An identifier made of token characters alone is
looked up among the tokens of a piece of work, and any other one is searched for.
-/

namespace StudioWeb
namespace Documents
namespace WorkLinks

open WholeTokens List

/-- What `link` reads of a piece of work. -/
structure WorkItem where
  kind : String
  number : Option Int
  title : String
  text : String

structure Linked (σ : Type) where
  id : String
  defined : σ
  work : List Nat

section Link

variable {σ : Type}

/-- What a token is made of. -/
def isPart (c : Char) : Bool := c.isAlphanum || c = '-' || c = '_'

def isToken (id : List Char) : Bool := id ≠ [] && id.all isPart

def lowercase (text : List Char) : List Char := text.map Char.toLower

def itemText (item : WorkItem) : List Char := item.title.toList ++ '\n' :: item.text.toList

/-- Whether the work names the identifier; `none` where the search does not end. -/
def finds (item : WorkItem) (id : String) : Option Bool :=
  let lower := lowercase id.toList
  if isToken lower then
    some (((lowercase (itemText item)).splitOnP fun c => !isPart c).contains lower)
  else
    match namedAt isPart lower (lowercase (itemText item)) with
    | .at _ => some true
    | .missing => some false
    | .hangs => none

/-- The order of `Reverse(number)`. -/
def newest : Option Int → Option Int → Bool
  | _, none => true
  | none, some _ => false
  | some a, some b => b ≤ a

/-- The order of the key that the work of an identifier is sorted by. -/
def comesFirst (a b : WorkItem) : Bool :=
  if a.kind = "commit" ↔ b.kind = "commit" then
    newest a.number b.number
  else
    b.kind = "commit"

def linkedTo (work : List WorkItem) (id : String) : List (WorkItem × Nat) :=
  (work.zipIdx.filter fun p => finds p.1 id = some true).mergeSort fun a b =>
    comesFirst a.1 b.1

/-- Every identifier that some work names, with that work, and how many pieces of work name
none; `none` where a search does not end. -/
def link (ids : List (String × σ)) (work : List WorkItem) : Option (List (Linked σ) × Nat) :=
  if work.all fun item => ids.all fun e => (finds item e.1).isSome then
    some (ids.filterMap fun e =>
        let items := linkedTo work e.1
        if items.isEmpty then none else some ⟨e.1, e.2, items.map Prod.snd⟩,
      (work.filter fun item => ids.all fun e => finds item e.1 ≠ some true).length)
  else
    none

end Link

section Finds

variable {item : WorkItem} {id : String}

theorem isPart_toLower (c : Char) : isPart c.toLower = isPart c := by
  simp only [isPart, Char.isAlphanum, Char.isAlpha, Char.isUpper, Char.isLower, Char.isDigit,
    Char.toLower]
  split <;> grind [UInt32.le_iff_toNat_le]

/-- The identifier stands in a text, ASCII case ignored, apart from what `word` holds of. -/
def Stands (word : Char → Bool) (id : String) (text : List Char) : Prop :=
  Used word Char.toLower (lowercase id.toList) text

theorem stands_iff {text : List Char} :
    Used isPart (fun c => c) (lowercase id.toList) (lowercase text) ↔ Stands isPart id text := by
  have hpart : (fun c : Char => isPart c.toLower) = isPart := funext isPart_toLower
  unfold Stands
  rw [← hpart]
  conv_rhs => rw [← used_map_iff]
  rw [hpart]
  rfl

theorem mem_tokens_iff {lower text : List Char} (h : isToken lower = true) :
    (text.splitOnP fun c => !isPart c).contains lower = true ↔
      ∃ start, namedAt isPart lower text = .at start := by
  rw [contains_iff_mem, exists_namedAt_iff, mem_splitOnP_iff]
  exact all_eq_true.mp ((Bool.and_eq_true _ _).mp h).2

/-- The two ways to look for an identifier find the same. -/
theorem finds_eq_some_true_iff : finds item id = some true ↔ Stands isPart id (itemText item) := by
  have hsearch : (∃ start, namedAt isPart (lowercase id.toList) (lowercase (itemText item)) =
      .at start) ↔ Stands isPart id (itemText item) :=
    exists_namedAt_iff.trans stands_iff
  unfold finds
  simp only
  split
  · next htoken =>
    rw [Option.some.injEq, mem_tokens_iff htoken]
    exact hsearch
  · rw [← hsearch]
    cases namedAt isPart (lowercase id.toList) (lowercase (itemText item)) <;> simp

theorem finds_eq_none_iff :
    finds item id = none ↔ id = "" ∧ ¬ Stands isPart id (itemText item) := by
  have hempty : lowercase id.toList = [] ↔ id = "" := by
    unfold lowercase
    rw [map_eq_nil_iff, String.toList_eq_nil_iff]
  have hhangs : namedAt isPart (lowercase id.toList) (lowercase (itemText item)) = .hangs ↔
      id = "" ∧ ¬ Stands isPart id (itemText item) :=
    namedAt_hangs_iff.trans (and_congr hempty (not_congr stands_iff))
  unfold finds
  simp only
  split
  · next htoken =>
    constructor
    · intro h
      cases h
    · rintro ⟨rfl, _⟩
      cases htoken
  · rw [← hhangs]
    cases namedAt isPart (lowercase id.toList) (lowercase (itemText item)) <;> simp

end Finds

/-- Issues and pull requests come before commits, and the newest number first. -/
def InOrder (a b : WorkItem) : Prop :=
  (a.kind = "commit" → b.kind = "commit") ∧ ((a.kind = "commit" ↔ b.kind = "commit") →
      ∀ n, b.number = some n → ∃ m, a.number = some m ∧ n ≤ m)

theorem newest_iff {a b : Option Int} :
    newest a b = true ↔ ∀ n, b = some n → ∃ m, a = some m ∧ n ≤ m := by
  cases a <;> cases b <;> simp [newest]

theorem comesFirst_iff {a b : WorkItem} : comesFirst a b = true ↔ InOrder a b := by
  unfold comesFirst InOrder
  rw [← newest_iff]
  by_cases ha : a.kind = "commit" <;> by_cases hb : b.kind = "commit" <;> simp [ha, hb]

theorem InOrder.trans {a b c : WorkItem} (h : InOrder a b) (h' : InOrder b c) : InOrder a c := by
  refine ⟨fun ha => h'.1 (h.1 ha), fun hsame n hn => ?_⟩
  have hbc : b.kind = "commit" ↔ c.kind = "commit" := ⟨h'.1, fun hc => h.1 (hsame.mpr hc)⟩
  obtain ⟨m, hm, hle⟩ := h'.2 hbc n hn
  obtain ⟨k, hk, hle'⟩ := h.2 (hsame.trans hbc.symm) m hm
  exact ⟨k, hk, Int.le_trans hle hle'⟩

theorem newest_total (a b : Option Int) : (newest a b || newest b a) = true := by
  cases a with
  | none => cases b <;> rfl
  | some n =>
    cases b with
    | none => rfl
    | some m => simp [newest, Int.le_total]

theorem comesFirst_total (a b : WorkItem) : (comesFirst a b || comesFirst b a) = true := by
  have hnumbers := newest_total a.number b.number
  unfold comesFirst
  by_cases ha : a.kind = "commit" <;> by_cases hb : b.kind = "commit" <;>
    simp [ha, hb, hnumbers]

section Linked

variable {σ : Type} {word : Char → Bool} {ids : List (String × σ)} {work : List WorkItem}
  {id : String} {i : Nat} {item : WorkItem}

theorem mem_linkedTo_iff :
    (item, i) ∈ linkedTo work id ↔ work[i]? = some item ∧ finds item id = some true := by
  unfold linkedTo
  rw [mem_mergeSort, mem_filter, mk_mem_zipIdx_iff_getElem?, decide_eq_true_eq]

theorem mem_map_linkedTo_iff :
    i ∈ (linkedTo work id).map Prod.snd ↔
      ∃ item, work[i]? = some item ∧ finds item id = some true := by
  simp only [mem_map, Prod.exists, mem_linkedTo_iff, exists_eq_right]

theorem nodup_linkedTo : ((linkedTo work id).map Prod.snd).Nodup := by
  have hall : (work.zipIdx.map Prod.snd).Nodup := by
    rw [zipIdx_map_snd]
    exact nodup_range'
  exact ((mergeSort_perm _ _).map _).nodup_iff.mpr (hall.sublist (filter_sublist.map _))

theorem pairwise_linkedTo : (linkedTo work id).Pairwise fun p q => InOrder p.1 q.1 := by
  refine (pairwise_mergeSort ?_ ?_ _).imp comesFirst_iff.mp
  · intro p q r hpq hqr
    exact comesFirst_iff.mpr ((comesFirst_iff.mp hpq).trans (comesFirst_iff.mp hqr))
  · exact fun p q => comesFirst_total p.1 q.1

def Names (word : Char → Bool) (item : WorkItem) (id : String) : Prop :=
  Stands word id item.title.toList ∨ Stands word id item.text.toList

/-- The work of each identifier is what names it, in order, and the rest is counted. -/
structure LinksNamed (word : Char → Bool) (ids : List (String × σ)) (work : List WorkItem)
    (linked : List (Linked σ)) (unlinked : Nat) : Prop where
  ofId : ∀ l ∈ linked, (l.id, l.defined) ∈ ids ∧ l.work ≠ []
  named : ∀ l ∈ linked, ∀ i, i ∈ l.work ↔ ∃ item, work[i]? = some item ∧ Names word item l.id
  once : ∀ l ∈ linked, l.work.Nodup
  inOrder : ∀ l ∈ linked, l.work.Pairwise fun i j =>
    ∀ a b, work[i]? = some a → work[j]? = some b → InOrder a b
  complete : ∀ e ∈ ids, (∃ item ∈ work, Names word item e.1) →
    ∃ l ∈ linked, l.id = e.1 ∧ l.defined = e.2
  rest : ∃ silent : List Nat, unlinked = silent.length ∧ silent.Nodup ∧
    ∀ i, i ∈ silent ↔ ∃ item, work[i]? = some item ∧ ∀ e ∈ ids, ¬ Names word item e.1

/-- Work is linked exactly when it names an identifier, and the lookup among the tokens answers
what the search does. -/
def LinksExactly (word : Char → Bool) (ids : List (String × σ)) (work : List WorkItem) : Prop :=
  (∃ linked unlinked, link ids work = some (linked, unlinked) ∧
      LinksNamed word ids work linked unlinked) ∧
    ∀ e ∈ ids, isToken (lowercase e.1.toList) = true → ∀ item ∈ work,
      (((lowercase (itemText item)).splitOnP fun c => !isPart c).contains
          (lowercase e.1.toList) = true ↔
        ∃ start, namedAt isPart (lowercase e.1.toList) (lowercase (itemText item)) = .at start)

/-- Where an identifier stands in the title and the text together, apart from ASCII letters and
digits, it is named by the one or the other; and the empty one does stand there. -/
def NamedApart (word : Char → Bool) (item : WorkItem) (id : String) : Prop :=
  (id = "" → Stands isPart id (itemText item)) ∧
    (Stands isPart id (itemText item) → Names word item id)

theorem stands_of_names (hword : ∀ c, isPart c = true → word c = true)
    (h : Names word item id) : Stands isPart id (itemText item) :=
  used_append_separator rfl (h.imp (Used.mono hword) (Used.mono hword))

theorem mem_linked_of_link {linked : List (Linked σ)} {unlinked : Nat} {l : Linked σ}
    (h : link ids work = some (linked, unlinked)) :
    l ∈ linked ↔ (l.id, l.defined) ∈ ids ∧ linkedTo work l.id ≠ [] ∧
      l.work = (linkedTo work l.id).map Prod.snd := by
  unfold link at h
  split at h
  · cases h
    simp only [mem_filterMap]
    constructor
    · rintro ⟨e, he, hl⟩
      split at hl
      · cases hl
      · next hne =>
        cases hl
        exact ⟨he, fun h => hne (isEmpty_iff.mpr h), rfl⟩
    · rintro ⟨he, hne, hwork⟩
      refine ⟨_, he, ?_⟩
      rw [if_neg fun h => hne (isEmpty_iff.mp h), ← hwork]
  · cases h

theorem links_exactly_iff (hword : ∀ c, isPart c = true → word c = true) :
    LinksExactly word ids work ↔ ∀ e ∈ ids, ∀ item ∈ work, NamedApart word item e.1 := by
  constructor
  · rintro ⟨⟨linked, unlinked, hlink, hnamed⟩, _⟩ e he item hitem
    obtain ⟨i, hi⟩ := mem_iff_getElem?.mp hitem
    refine ⟨fun hempty => ?_, fun hstands => ?_⟩
    · by_contra hnot
      have hnone := finds_eq_none_iff.mpr ⟨hempty, hnot⟩
      unfold link at hlink
      split at hlink
      · next hall =>
        have hsome := all_eq_true.mp (all_eq_true.mp hall item hitem) e he
        rw [hnone] at hsome
        cases hsome
      · cases hlink
    · have hin : i ∈ (linkedTo work e.1).map Prod.snd :=
        mem_map_linkedTo_iff.mpr ⟨item, hi, finds_eq_some_true_iff.mpr hstands⟩
      have hl : (⟨e.1, e.2, (linkedTo work e.1).map Prod.snd⟩ : Linked σ) ∈ linked := by
        refine (mem_linked_of_link hlink).mpr ⟨he, fun hnil => ?_, rfl⟩
        rw [hnil] at hin
        cases hin
      obtain ⟨item', hi', hnames⟩ := (hnamed.named _ hl i).mp hin
      cases hi.symm.trans hi'
      exact hnames
  · intro hall
    have hfinds : ∀ e ∈ ids, ∀ item ∈ work, finds item e.1 = some true ↔ Names word item e.1 := by
      intro e he item hitem
      rw [finds_eq_some_true_iff]
      exact ⟨(hall e he item hitem).2, stands_of_names hword⟩
    have hends : (work.all fun item => ids.all fun e => (finds item e.1).isSome) = true := by
      simp only [all_eq_true]
      intro item hitem e he
      rw [Option.isSome_iff_ne_none]
      intro hnone
      obtain ⟨hempty, hnot⟩ := finds_eq_none_iff.mp hnone
      exact hnot ((hall e he item hitem).1 hempty)
    obtain ⟨linked, unlinked, hlink, hrest⟩ : ∃ linked unlinked,
        link ids work = some (linked, unlinked) ∧
          unlinked = (work.filter fun item => ids.all fun e => finds item e.1 ≠ some true).length :=
      ⟨_, _, if_pos hends, rfl⟩
    refine ⟨⟨linked, unlinked, hlink, ?_, ?_, ?_, ?_, ?_, ?_⟩, ?_⟩
    · intro l hl
      obtain ⟨he, hne, hwork⟩ := (mem_linked_of_link hlink).mp hl
      exact ⟨he, fun hnil => hne (map_eq_nil_iff.mp (hwork.symm.trans hnil))⟩
    · intro l hl i
      obtain ⟨he, _, hwork⟩ := (mem_linked_of_link hlink).mp hl
      rw [hwork, mem_map_linkedTo_iff]
      refine exists_congr fun item => and_congr_right fun hi => ?_
      exact hfinds _ he item (mem_of_getElem? hi)
    · intro l hl
      rw [((mem_linked_of_link hlink).mp hl).2.2]
      exact nodup_linkedTo
    · intro l hl
      rw [((mem_linked_of_link hlink).mp hl).2.2, pairwise_map]
      refine pairwise_linkedTo.imp_of_mem ?_
      intro p q hp hq horder a b ha hb
      cases (mem_linkedTo_iff.mp hp).1.symm.trans ha
      cases (mem_linkedTo_iff.mp hq).1.symm.trans hb
      exact horder
    · rintro e he ⟨item, hitem, hnames⟩
      refine ⟨⟨e.1, e.2, (linkedTo work e.1).map Prod.snd⟩, ?_, rfl, rfl⟩
      obtain ⟨i, hi⟩ := mem_iff_getElem?.mp hitem
      have hin : (item, i) ∈ linkedTo work e.1 :=
        mem_linkedTo_iff.mpr ⟨hi, (hfinds e he item hitem).mpr hnames⟩
      exact (mem_linked_of_link hlink).mpr ⟨he, ne_nil_of_mem hin, rfl⟩
    · refine ⟨(work.zipIdx.filter fun p => ids.all fun e => finds p.1 e.1 ≠ some true).map
        Prod.snd, ?_, ?_, ?_⟩
      · rw [hrest, length_map]
        conv_lhs => rw [← zipIdx_map_fst 0 work, filter_map, length_map]
        rfl
      · have hnodup : (work.zipIdx.map Prod.snd).Nodup := by
          rw [zipIdx_map_snd]
          exact nodup_range'
        exact hnodup.sublist (filter_sublist.map _)
      · intro i
        simp only [mem_map, mem_filter, Prod.exists, mk_mem_zipIdx_iff_getElem?,
          exists_eq_right, all_eq_true, decide_eq_true_eq]
        refine exists_congr fun item => and_congr_right fun hi => ?_
        exact forall₂_congr fun e he => not_congr (hfinds e he item (mem_of_getElem? hi))
    · intro e _ htoken item _
      exact mem_tokens_iff htoken

/-- A letter that is none of ASCII does not hide the identifier that stands behind a blank. -/
theorem named_in_a_title_is_linked :
    LinksExactly (fun c => isPart c || c = 'é') [("FR-1", ())] [⟨"issue", some 1, "é fr-1", ""⟩] := by
  refine (links_exactly_iff fun c hc => ?_).mpr ?_
  · rw [hc]
    rfl
  · intro e he item hitem
    cases mem_singleton.mp he
    cases mem_singleton.mp hitem
    refine ⟨fun h => absurd h (by decide), fun _ => .inl ?_⟩
    exact ⟨['é', ' '], "fr-1".toList, [], by decide, by decide, by decide⟩

theorem empty_identifier_hangs :
    ¬ LinksExactly isPart [("", ())] [⟨"issue", some 1, "a", "b"⟩] := by
  rintro ⟨⟨linked, unlinked, hlink, _⟩, _⟩
  have hnone : link [("", ())] [⟨"issue", some 1, "a", "b"⟩] = none := if_neg (by decide +kernel)
  rw [hnone] at hlink
  cases hlink

end Linked

end WorkLinks
end Documents
end StudioWeb
