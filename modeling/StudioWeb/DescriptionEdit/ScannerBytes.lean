import StudioWeb.DescriptionEdit.Scanner
import StudioWeb.Library.SafeCalls

/-!
# The bytes of a description

The cells of a description are the bytes of its text.  The bytes of one character
are of one kind: a mode changes only at an ASCII character, and the bytes that
are passed to leave a string are quotes.
-/

namespace StudioWeb
namespace DescriptionEdit

open Rust List

section Marks

/-- What a mode makes of a character that it does not look for. -/
def Mode.kindOf : Mode → K
  | .code => .code
  | .comment => .comment
  | .str _ => .str
  | .triple _ => .str
  | .pass _ _ => .str

/-- Bytes are passed unread inside a string, or are quotes that end it. -/
def Mode.Fits (bytes : List Utf8.Byte) : Mode → Prop
  | .pass count next =>
    0 < count ∧ (∀ n m, next ≠ .pass n m) ∧
      (next.kindOf = .str ∨ ∀ b ∈ bytes.take count, b.char.utf8Size = 1)
  | _ => True

theorem utf8Size_of_isQuote {c : Char} (h : isQuote c = true) : c.utf8Size = 1 := by
  have hc : c = '"' ∨ c = '\'' := by
    simpa [isQuote] using h
  rcases hc with rfl | rfl
  · decide
  · decide

def Mode.Quoted : Mode → Prop
  | .str quote => isQuote quote = true
  | .triple quote => isQuote quote = true
  | .pass _ next => next.Quoted
  | _ => True

variable {mode : Mode} {bytes : List Utf8.Byte}

theorem quoted_markStep {c : Char} {after : List Utf8.Byte} (h : mode.Quoted) :
    (markStep mode c after).2.Quoted := by
  cases mode with
  | code =>
    simp only [markStep]
    split_ifs with hcomment hquote htriple
    · trivial
    · exact hquote
    · exact hquote
    · trivial
  | comment =>
    simp only [markStep]
    split_ifs
    · trivial
    · trivial
  | str =>
    simp only [markStep]
    split_ifs
    · trivial
    · exact h
    · exact h
  | triple =>
    simp only [markStep]
    split_ifs
    · exact h
    · trivial
    · exact h
  | pass =>
    simp only [markStep]
    split_ifs
    · exact h
    · exact h

theorem fits_markStep {b : Utf8.Byte} (hquoted : mode.Quoted)
    (h : mode.Fits (b :: bytes)) : (markStep mode b.char bytes).2.Fits bytes := by
  cases mode with
  | code =>
    simp only [markStep]
    split_ifs
    · trivial
    · exact ⟨by omega, (by rintro n m ⟨⟩), Or.inl rfl⟩
    · trivial
    · trivial
  | comment =>
    simp only [markStep]
    split_ifs
    · trivial
    · trivial
  | str =>
    simp only [markStep]
    split_ifs
    · trivial
    · exact ⟨by omega, (by rintro n m ⟨⟩), Or.inl rfl⟩
    · trivial
  | triple =>
    simp only [markStep]
    split_ifs with hescape hclose
    · exact ⟨by omega, (by rintro n m ⟨⟩), Or.inl rfl⟩
    · refine ⟨by omega, (by rintro n m ⟨⟩), Or.inr ?_⟩
      obtain ⟨_, htwo⟩ := hclose
      match bytes, htwo with
      | x :: y :: rest, htwo =>
        simp only [twoQuotes, Bool.and_eq_true, decide_eq_true_eq] at htwo
        intro a ha
        have hquote := utf8Size_of_isQuote hquoted
        simp only [take_succ_cons, take_zero, mem_cons,
          not_mem_nil, or_false] at ha
        rcases ha with rfl | rfl
        · rw [htwo.1]
          exact hquote
        · rw [htwo.2]
          exact hquote
    · trivial
  | pass count next =>
    obtain ⟨hcount, hnext, hfits⟩ := h
    simp only [markStep]
    split_ifs with hlast
    · cases next with
      | pass n m => exact absurd rfl (hnext n m)
      | code => trivial
      | comment => trivial
      | str => trivial
      | triple => trivial
    · refine ⟨by omega, hnext, hfits.imp_right ?_⟩
      intro hascii a ha
      refine hascii a ?_
      obtain ⟨n, rfl⟩ := Nat.exists_eq_succ_of_ne_zero (by omega : count ≠ 0)
      rw [take_succ_cons]
      exact mem_cons_of_mem b ha

theorem kindOf_markStep {b : Utf8.Byte}
    (hquoted : mode.Quoted) (hfits : mode.Fits (b :: bytes)) (hwide : b.char.utf8Size ≠ 1) :
    (markStep mode b.char bytes).1 = mode.kindOf ∧
      (markStep mode b.char bytes).2.kindOf = mode.kindOf := by
  have hne : ∀ c : Char, c.utf8Size = 1 → b.char ≠ c := by
    rintro c hc rfl
    exact hwide hc
  have hhash := hne '#' (by decide)
  have hline := hne '\n' (by decide)
  have hescape := hne '\\' (by decide)
  have hquote : isQuote b.char ≠ true := fun h => hwide (utf8Size_of_isQuote h)
  cases mode with
  | code =>
    simp only [markStep, if_neg hhash, if_neg hquote]
    exact ⟨rfl, trivial⟩
  | comment =>
    simp only [markStep, if_neg hline]
    exact ⟨rfl, trivial⟩
  | str quote =>
    have hnot : ¬ (b.char = quote ∨ b.char = '\n') := by
      rintro (h | h)
      · exact hne quote (utf8Size_of_isQuote hquoted) h
      · exact hline h
    simp only [markStep, if_neg hnot, if_neg hescape]
    exact ⟨rfl, trivial⟩
  | triple quote =>
    have hnot : ¬ (b.char = quote ∧ twoQuotes quote bytes = true) := fun h =>
      hne quote (utf8Size_of_isQuote hquoted) h.1
    simp only [markStep, if_neg hnot, if_neg hescape]
    exact ⟨rfl, trivial⟩
  | pass count =>
    obtain ⟨hcount, _, hstr | hascii⟩ := hfits
    · refine ⟨rfl, ?_⟩
      simp only [markStep]
      split_ifs
      · exact hstr
      · rfl
    · have hmem : b ∈ (b :: bytes).take count := by
        obtain ⟨n, rfl⟩ := Nat.exists_eq_succ_of_ne_zero (by omega : count ≠ 0)
        rw [take_succ_cons]
        exact mem_cons_self
      exact absurd (hascii b hmem) hwide

theorem same_kind_mark {i : Nat} {x y : Cell}
    (hquoted : mode.Quoted) (hfits : mode.Fits bytes) (hx : (mark mode bytes)[i]? = some x)
    (hy : (mark mode bytes)[i + 1]? = some y) (hsame : x.char = y.char)
    (hwide : y.char.utf8Size ≠ 1) : x.kind = y.kind := by
  induction bytes generalizing mode i with
  | nil =>
    simp [mark] at hx
  | cons b bytes ih =>
    have hquoted' := @quoted_markStep mode b.char bytes hquoted
    have hfits' := fits_markStep hquoted hfits
    rw [mark, getElem?_cons_succ] at hy
    cases i with
    | succ =>
      rw [mark, getElem?_cons_succ] at hx
      exact ih hquoted' hfits' hx hy
    | zero =>
      rw [mark, getElem?_cons_zero] at hx
      cases hx
      cases bytes with
      | nil =>
        simp [mark] at hy
      | cons =>
        rw [mark, getElem?_cons_zero] at hy
        cases hy
        have hfirst := kindOf_markStep hquoted hfits (hsame ▸ hwide)
        have hsecond := kindOf_markStep hquoted' hfits' hwide
        exact hfirst.1.trans (hfirst.2.symm.trans hsecond.1.symm)

theorem map_toByte_mark (mode : Mode) (bytes : List Utf8.Byte) :
    (mark mode bytes).map Cell.toByte = bytes := by
  induction bytes generalizing mode with
  | nil => rfl
  | cons _ _ ih =>
    rw [mark, map_cons, ih]

end Marks

namespace Doc

variable {d : Doc}

section Cells

theorem map_toByte_cells (d : Doc) : d.cells.map Cell.toByte = Utf8.encode d.t := by
  rw [d.marked]
  exact map_toByte_mark _ _

theorem len_eq (d : Doc) : d.len = Utf8.byteLen d.t := by
  rw [Utf8.byteLen, ← map_toByte_cells, length_map]
  rfl

/-- `is_char_boundary` of the text. -/
def Boundary (d : Doc) (i : Nat) : Prop := Utf8.isBoundary (Utf8.encode d.t) i = true

variable {i : Nat} {x : Cell}

theorem getElem?_encode : (Utf8.encode d.t)[i]? = d.cells[i]?.map Cell.toByte := by
  rw [← map_toByte_cells, getElem?_map]

theorem boundary_iff_place (h : d.cells[i]? = some x) :
    d.Boundary i ↔ x.place = 0 := by
  have hbyte : (Utf8.encode d.t)[i]? = some x.toByte := by
    rw [getElem?_encode, h]
    rfl
  simp [Boundary, Utf8.isBoundary, hbyte]

theorem boundary_len (d : Doc) : d.Boundary d.len := by
  rw [len_eq]
  exact Utf8.isBoundary_byteLen d.t

theorem Boundary.le_len (h : d.Boundary i) : i ≤ d.len := by
  rw [len_eq]
  exact Utf8.le_of_isBoundary h

theorem exists_cell (h : i < d.len) : ∃ x, d.cells[i]? = some x := by
  exact ⟨d.cells[i], getElem?_eq_getElem h⟩

section

variable (h : d.cells[i]? = some x)
include h

theorem lt_len : i < d.len := by
  exact (List.getElem?_eq_some_iff.mp h).1

theorem place_of_ascii (hascii : x.char.utf8Size = 1) : x.place = 0 := by
  have hbyte : (Utf8.encode d.t)[i]? = some x.toByte := by
    rw [getElem?_encode, h]
    rfl
  have hlt := Utf8.place_lt hbyte
  rw [hascii] at hlt
  exact Nat.lt_one_iff.mp hlt

theorem boundary_of_ascii (hascii : x.char.utf8Size = 1) : d.Boundary i := by
  exact (boundary_iff_place h).mpr (place_of_ascii h hascii)

omit h in
/-- A byte inside a character comes after one of the same character and kind. -/
theorem same_kind {y : Cell} (h : d.cells[i]? = some y) (hinside : y.place ≠ 0) :
    ∃ j x, i = j + 1 ∧ d.cells[j]? = some x ∧ x.char = y.char ∧ x.kind = y.kind := by
  have hbyte : (Utf8.encode d.t)[i]? = some y.toByte := by
    rw [getElem?_encode, h]
    rfl
  obtain ⟨j, a, rfl, ha, hchar⟩ := Utf8.exists_before hbyte hinside
  rw [getElem?_encode] at ha
  obtain ⟨x, hx, rfl⟩ := Option.map_eq_some_iff.mp ha
  have hwide : y.char.utf8Size ≠ 1 := fun hascii => hinside (place_of_ascii h hascii)
  refine ⟨j, x, rfl, hx, hchar, ?_⟩
  rw [d.marked] at hx h
  exact @same_kind_mark .code _ _ _ _ trivial trivial hx h hchar hwide

/-- After an ASCII character there is a boundary. -/
theorem boundary_succ (hascii : x.char.utf8Size = 1) : d.Boundary (i + 1) := by
  obtain hend | hlt := Nat.eq_or_lt_of_le (Nat.succ_le_of_lt (lt_len h))
  · have hlen : i + 1 = d.len := hend
    rw [hlen]
    exact d.boundary_len
  · obtain ⟨y, hy⟩ := exists_cell hlt
    refine (boundary_iff_place hy).mpr ?_
    by_contra hinside
    obtain ⟨j, x', hj, hx', hchar, _⟩ := same_kind hy hinside
    have hij : i = j := Nat.succ.inj hj
    rw [← hij, h] at hx'
    cases hx'
    exact hinside (place_of_ascii hy (hchar ▸ hascii))

end

end Cells

section Walks

theorem cell_eq_ok {i : Nat} {x : Cell} (h : d.cells[i]? = some x) : d.cell i = .ok x := by
  rw [cell, h]

/-- The bytes from one offset up to another all have a property. -/
def All (d : Doc) (p : Cell → Bool) (i j : Nat) : Prop :=
  ∀ k x, i ≤ k → k < j → d.cells[k]? = some x → p x = true

/-- What `skipWhile` finds. -/
structure Skipped (d : Doc) (p : Cell → Bool) (i e j : Nat) : Prop where
  start_le : i ≤ j
  le_stop : j ≤ e
  all : d.All p i j
  stops : j < e → ∃ x, d.cells[j]? = some x ∧ p x = false

variable {p : Cell → Bool}

theorem exists_skipWhile {n i : Nat} (h : i + n ≤ d.len) :
    ∃ j, d.skipWhile p n i = .ok j ∧ d.Skipped p i (i + n) j := by
  induction n generalizing i with
  | zero =>
    refine ⟨i, rfl, Nat.le_refl i, Nat.le_refl i, ?_, fun hlt => absurd hlt (Nat.lt_irrefl i)⟩
    intro k x hk hlt
    omega
  | succ n ih =>
    obtain ⟨x, hx⟩ := exists_cell (show i < d.len by omega)
    rw [skipWhile, cell_eq_ok hx]
    by_cases hp : p x = true
    · obtain ⟨j, hj, hskipped⟩ := ih (show i + 1 + n ≤ d.len by omega)
      refine ⟨j, ?_, ?_, ?_, ?_, ?_⟩
      · rw [← hj]
        exact if_pos hp
      · have hle := hskipped.start_le
        omega
      · have hle := hskipped.le_stop
        omega
      · intro k z hk hlt hz
        by_cases hki : k = i
        · rw [hki, hx] at hz
          cases hz
          exact hp
        · exact hskipped.all k z (by omega) hlt hz
      · intro hlt
        exact hskipped.stops (by omega)
    · refine ⟨i, if_neg hp, Nat.le_refl i, Nat.le_add_right i _, ?_, ?_⟩
      · intro k z hk hlt
        omega
      · intro _
        exact ⟨x, hx, by simpa using hp⟩

theorem skipWhile_returns {n i : Nat} (h : i + n ≤ d.len) :
    Returns (d.skipWhile p n i) (d.Skipped p i (i + n)) := by
  obtain ⟨j, hj, hskipped⟩ := exists_skipWhile h
  exact returns_of_eq_ok hj hskipped

/-- What `skipBack` finds. -/
structure SkippedBack (d : Doc) (p : Cell → Bool) (s e j : Nat) : Prop where
  start_le : s ≤ j
  le_stop : j ≤ e
  all : d.All p j e
  stops : s < j → ∃ x, d.cells[j - 1]? = some x ∧ p x = false

theorem skipBack_returns {n s : Nat} (h : s + n ≤ d.len) :
    Returns (d.skipBack p n (s + n)) (d.SkippedBack p s (s + n)) := by
  induction n with
  | zero =>
    refine returns_ok ⟨Nat.le_refl s, Nat.le_refl s, ?_, fun hlt => absurd hlt (Nat.lt_irrefl s)⟩
    intro k x hk hlt
    omega
  | succ n ih =>
    obtain ⟨x, hx⟩ := exists_cell (show s + n < d.len by omega)
    have hlast : s + (n + 1) - 1 = s + n := by omega
    rw [skipBack, hlast]
    refine (returns_of_eq_ok (P := fun y => y = x) (cell_eq_ok hx) rfl).bind ?_
    rintro y rfl
    refine returns_ite ?_ ?_
    · intro hp
      refine (ih (by omega)).mono fun j hj => ⟨hj.start_le, ?_, ?_, hj.stops⟩
      · have hle := hj.le_stop
        omega
      · intro k z hk hlt hz
        by_cases hks : k = s + n
        · rw [hks, hx] at hz
          cases hz
          exact hp
        · exact hj.all k z hk (by omega) hz
    · intro hp
      refine returns_ok ⟨by omega, Nat.le_refl _, ?_, ?_⟩
      · intro k z hk hlt
        omega
      · intro _
        rw [hlast]
        exact ⟨y, hx, by simpa using hp⟩

end Walks

end Doc

end DescriptionEdit
end StudioWeb
