import StudioWeb.DescriptionEdit.ReadBack

/-!
# When the scanner does not panic

Every slice of the scanner is on character boundaries but one: `product` slices
the text at each byte of code outside all brackets until it finds the product
call.  A save looks for that call in the latest text, in the rendered one and in
the text it has edited; the edits of a save that writes no frontend are all
inside the call, and the call of the edited text is then the latest one.
-/

namespace StudioWeb
namespace DescriptionEdit

open Rust List Doc Utf8

theorem twoQuotes_append {quote : Char} {bytes x y : List Utf8.Byte} {b : Utf8.Byte}
    (hb : b.char ≠ quote) :
    twoQuotes quote (bytes ++ b :: x) = twoQuotes quote (bytes ++ b :: y) := by
  have hnot : ∀ z, twoQuotes quote (b :: z) = false := by
    intro z
    cases z with
    | nil => rfl
    | cons => simp [twoQuotes, hb]
  rcases bytes with _ | ⟨r, _ | ⟨r', bytes⟩⟩
  · rw [nil_append, nil_append, hnot, hnot]
  · rfl
  · rfl

theorem markStep_congr {mode : Mode} {c : Char} {x y : List Utf8.Byte} (hquoted : mode.Quoted)
    (h : isQuote c = true → twoQuotes c x = twoQuotes c y) :
    markStep mode c x = markStep mode c y := by
  cases mode with
  | code =>
    by_cases hquote : isQuote c = true
    · simp only [markStep, h hquote]
    · simp only [markStep, if_neg hquote]
  | comment => rfl
  | str => rfl
  | triple quote =>
    by_cases hc : c = quote
    · subst hc
      simp only [markStep, h hquoted]
    · simp only [markStep, hc, false_and]
  | pass => rfl

theorem getElem?_mark_append {mode : Mode} {bytes x y : List Utf8.Byte} {b : Utf8.Byte} {i : Nat}
    (hquoted : mode.Quoted) (hb : isQuote b.char = false) (hi : i ≤ bytes.length) :
    (mark mode (bytes ++ b :: x))[i]? = (mark mode (bytes ++ b :: y))[i]? := by
  induction bytes generalizing mode i with
  | nil =>
    obtain rfl : i = 0 := Nat.le_zero.mp hi
    have hstep : markStep mode b.char x = markStep mode b.char y :=
      markStep_congr hquoted fun hquote => by rw [hb] at hquote; cases hquote
    rw [nil_append, nil_append, mark, mark, getElem?_cons_zero,
      getElem?_cons_zero, hstep]
  | cons a bytes ih =>
    have hstep : markStep mode a.char (bytes ++ b :: x) =
        markStep mode a.char (bytes ++ b :: y) := by
      refine markStep_congr hquoted fun hquote => twoQuotes_append ?_
      rintro hsame
      rw [hsame, hquote] at hb
      cases hb
    rw [cons_append, cons_append, mark, mark, hstep]
    cases i with
    | zero => rfl
    | succ =>
      rw [getElem?_cons_succ, getElem?_cons_succ]
      exact ih (quoted_markStep hquoted) (Nat.le_of_succ_le_succ hi)

section Kept

variable {d m : Doc} {bracket : Nat}

theorem cells_of_agrees {x : Cell} {i : Nat} (h : Agrees d (bracket + 1) m.t)
    (hx : d.cells[bracket]? = some x) (hopens : isOpen x = true) (hi : i ≤ bracket) :
    m.cells[i]? = d.cells[i]? := by
  obtain ⟨u, w, w', hm, hd, hu⟩ := h
  have hlen : (encode u).length = bracket + 1 := hu
  have hlast : (encode u)[bracket]? = some x.toByte := by
    have hbyte : (encode d.t)[bracket]? = some x.toByte := by
      rw [getElem?_encode, hx]
      rfl
    rw [hd, encode_append, getElem?_append_left (by omega)] at hbyte
    exact hbyte
  have hcut : encode u = (encode u).take bracket ++ [x.toByte] := by
    have htake := take_add_one (l := encode u) (i := bracket)
    rw [hlast, take_of_length_le (by omega)] at htake
    exact htake
  have hquote : isQuote x.toByte.char = false := by
    unfold isOpen at hopens
    simp only [Bool.or_eq_true, decide_eq_true_eq] at hopens
    obtain (h | h) | h := hopens <;> rw [isQuote, h] <;> decide
  have hkeep : ∀ z, mark .code (encode (u ++ z)) =
      mark .code ((encode u).take bracket ++ x.toByte :: encode z) := by
    intro z
    rw [encode_append]
    conv => lhs; rw [hcut]
    rw [append_assoc, singleton_append]
  rw [m.marked, d.marked, hm, hd, hkeep, hkeep]
  refine getElem?_mark_append trivial hquote ?_
  rw [length_take]
  omega

theorem depthAt_of_agrees {i : Nat} (h : ∀ j, j < i → m.cells[j]? = d.cells[j]?) :
    m.depthAt i = d.depthAt i := by
  have htake : m.cells.take i = d.cells.take i := by
    refine ext_getElem? fun j => ?_
    rw [getElem?_take, getElem?_take]
    split_ifs with hj
    · exact h j hj
    · rfl
  rw [depthAt, depthAt, htake]

theorem skipWhile_eq_ok {p : Cell → Bool} {n i j : Nat} {x : Cell} (hlen : i + n ≤ d.len)
    (hij : i ≤ j) (hj : j < i + n) (hall : d.All p i j) (hx : d.cells[j]? = some x)
    (hp : p x = false) : d.skipWhile p n i = .ok j := by
  obtain ⟨k, hk, hskipped⟩ := @Doc.exists_skipWhile d p n i hlen
  rw [hk]
  have hstart := hskipped.start_le
  obtain hlt | rfl | hlt := Nat.lt_trichotomy k j
  · obtain ⟨y, hy, hstop⟩ := hskipped.stops (by omega)
    rw [hall k y hstart hlt hy] at hstop
    cases hstop
  · rfl
  · rw [hskipped.all j x hij hlt hx] at hp
    cases hp

/-- The product call of a text is that of a text that agrees up to its bracket. -/
theorem product_opens_of_agrees {k : Nat} (h : Agrees d (bracket + 1) m.t)
    (hopens : d.ProductOpens k bracket) : m.ProductOpens k bracket := by
  obtain ⟨x, hx, hchar⟩ := charAt_eq_some hopens.opens
  have hopen : isOpen x = true := by
    rw [isOpen, hchar]
    decide
  have hcells : ∀ i, i ≤ bracket → m.cells[i]? = d.cells[i]? :=
    fun i hi => cells_of_agrees h hx hopen hi
  obtain ⟨y, hy, hcode⟩ := hopens.cell
  have hword := (startsProduct_cell hopens.starts hy).2
  obtain ⟨j, hj, hskipped⟩ := @Doc.exists_skipWhile d isAsciiWhitespace
    (d.len - (k + productWord.length)) (k + productWord.length) (by omega)
  rw [hopens.spaces] at hj
  cases hj
  have hstart := hskipped.start_le
  have hmx : m.cells[bracket]? = some x := by
    rw [hcells bracket (Nat.le_refl _), hx]
  have hmlen := lt_len hmx
  refine ⟨?_, ⟨y, ?_, hcode⟩, ?_, ?_, ?_, ?_⟩
  · rw [depthAt_of_agrees fun j hj => hcells j (by omega)]
    exact hopens.depth
  · rw [hcells k (by omega), hy]
  · obtain ⟨a, b, hd, ha⟩ := startsProduct_iff.mp hopens.starts
    obtain ⟨u, w, w', hm, hd', hu⟩ := h
    have hle : byteLen (a ++ productWord) ≤ byteLen u := by
      rw [byteLen_append, byteLen_productWord]
      omega
    have hboundary : isBoundary (encode (u ++ w')) (byteLen (a ++ productWord)) = true := by
      rw [← hd', hd]
      exact isBoundary_iff.mpr ⟨_, _, rfl, rfl⟩
    obtain ⟨v, v', rfl, hv⟩ := isBoundary_iff.mp (isBoundary_of_append hboundary hle)
    have hsame : v = a ++ productWord := by
      refine @Utf8.prefix_unique v (a ++ productWord) (v' ++ w') b ?_ hv
      rw [← append_assoc, ← hd', hd]
    refine startsProduct_iff.mpr ⟨a, v' ++ w, ?_, ha⟩
    rw [hm, hsame]
    simp only [append_assoc]
  · have hname := hopens.name
    unfold startsName at hname ⊢
    rw [hcells (k - 1) (by omega)]
    exact hname
  · refine skipWhile_eq_ok (by omega) hstart (by omega) ?_ hmx ?_
    · intro i z hi hlt hz
      rw [hcells i (by omega)] at hz
      exact hskipped.all i z hi hlt hz
    · rw [isAsciiWhitespace, hchar]
      decide
  · rw [charAt, hmx, Option.map_some, hchar]

theorem plainTop_of_agrees {latest merged : List Char} {c : Call}
    (hproduct : (new latest).product = .ok (some c))
    (h : Agrees (new latest) (c.bracket + 1) merged) : PlainTop merged := by
  obtain ⟨k, hopens, _, hpassed⟩ := product_eq_some hproduct
  obtain ⟨x, hx, hchar⟩ := charAt_eq_some hopens.opens
  have hopen : isOpen x = true := by
    rw [isOpen, hchar]
    decide
  have hcells : ∀ i, i ≤ c.bracket → (new merged).cells[i]? = (new latest).cells[i]? :=
    fun i hi => cells_of_agrees h hx hopen hi
  have hkept := @product_opens_of_agrees (new latest) (new merged) c.bracket k h hopens
  intro i hinside
  refine ⟨k, c.bracket, ?_, hkept⟩
  by_contra hle
  have hik : i ≤ k := Nat.le_of_not_lt hle
  obtain ⟨y, hy, _⟩ := hopens.cell
  have hword := (startsProduct_cell hopens.starts hy).2
  obtain ⟨j, hj, hskipped⟩ := @Doc.exists_skipWhile (new latest) isAsciiWhitespace
    ((new latest).len - (k + productWord.length)) (k + productWord.length) (by omega)
  rw [hopens.spaces] at hj
  cases hj
  have hstart := hskipped.start_le
  have hlatest : (new latest).TopInside i := by
    refine ⟨?_, ?_⟩
    · rw [← depthAt_of_agrees fun j hj => hcells j (by omega)]
      exact hinside.depth
    · rw [← hcells i (by omega)]
      exact hinside.cell
  obtain rfl | hlt := Nat.eq_or_lt_of_le hik
  · exact not_inside_of_opens hopens hlatest
  · exact (hpassed i hlt).inside hlatest

end Kept

/-- The text has a product call. -/
def HasProduct (t : List Char) : Prop := ∃ c, (new t).product = .ok (some c)

def SavesFrontend (rendered : List Char) (change : Change) : Prop :=
  ∃ rp, (new rendered).product = .ok (some rp) ∧ WritesFrontend (new rendered) change rp

structure PlainSave (latest rendered : List Char) (change : Change) : Prop where
  above_latest : PlainTop latest
  above_rendered : HasProduct latest → PlainTop rendered
  /-- A frontend may be written above the product call. -/
  above_written : HasProduct latest → SavesFrontend rendered change →
    ∀ merged, edited latest rendered change = .ok merged → PlainTop merged

theorem product_eq_overflow {t : List Char} (h : ¬ PlainTop t) :
    (new t).product = overflow := by
  exact product_panics_iff.mpr h

/-- An edit of texts that are plain does not panic, and keeps the latest text up
to its product's bracket unless a frontend is written. -/
theorem edited_safe {latest rendered : List Char} {change : Change} (hlatest : PlainTop latest)
    (hrendered : HasProduct latest → PlainTop rendered) :
    Safe (edited latest rendered change) (fun merged => HasProduct latest ∧
      (SavesFrontend rendered change ∨ PlainTop merged)) := by
  obtain ⟨lfound, hlp, hlbrackets⟩ := product_returns hlatest
  unfold edited
  dsimp only
  rw [hlp]
  cases lfound with
  | none => exact safe_fail
  | some lp =>
    have hhas : HasProduct latest := ⟨lp, hlp⟩
    obtain ⟨rfound, hrp, hrbrackets⟩ := product_returns (hrendered hhas)
    show Safe ((new rendered).product >>= _) _
    rw [hrp]
    cases rfound with
    | none => exact safe_fail
    | some rp =>
      by_cases hwrites : WritesFrontend (new rendered) change rp
      · refine (collect_safe (Or.inl rfl) (hlbrackets lp rfl) (Nat.zero_le _)
          (hrbrackets rp rfl) fun _ => rfl).bind fun edits hedits => ?_
        refine Safe.mono (apply_safe (boundary_zero (new latest)) hedits) ?_
        exact fun merged _ => ⟨hhas, Or.inl ⟨rp, hrp, hwrites⟩⟩
      · refine (collect_safe (hlbrackets lp rfl).guard (hlbrackets lp rfl) (Nat.le_refl _)
          (hrbrackets rp rfl) fun h => absurd h hwrites).bind fun edits hedits => ?_
        refine Safe.mono (apply_safe (hlbrackets lp rfl).boundary_inside hedits) ?_
        exact fun merged hmerged => ⟨hhas, Or.inr (plainTop_of_agrees hlp hmerged)⟩

theorem verify_panics_iff {latest merged : List Char} {change : Change}
    (hlatest : PlainTop latest) : verify latest merged change ≠ overflow ↔ PlainTop merged := by
  obtain ⟨lfound, hlp, hlbrackets⟩ := product_returns hlatest
  unfold verify
  dsimp only
  rw [hlp]
  constructor
  · intro h
    by_contra hplain
    refine h ?_
    show ((new merged).product >>= _) = _
    rw [product_eq_overflow hplain]
    rfl
  · intro hplain
    obtain ⟨mfound, hmp, hmbrackets⟩ := product_returns hplain
    refine (show Safe ((new merged).product >>= _) (fun _ => True) from ?_).1
    rw [hmp]
    cases lfound with
    | none => exact safe_fail
    | some lp =>
      cases mfound with
      | none => exact safe_fail
      | some mp =>
        refine (lostOf_returns (hlbrackets lp rfl) (hmbrackets mp rfl)).bind_safe ?_
        intro lost _
        exact safe_ite (fun _ => (returns_ok trivial).safe) fun _ => safe_fail

end DescriptionEdit
end StudioWeb
