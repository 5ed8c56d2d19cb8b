import StudioWeb.Library.RustPrelude
import Mathlib.Data.List.Basic

/-!
# Byte offsets into UTF-8 text

Rust reads a `str` by byte offsets.  A byte is given here by the character it
belongs to and its place in that character's encoding; it equals an ASCII byte
exactly when it belongs to that character.  A slice panics unless both of its
ends are in the text and on character boundaries.
-/

namespace StudioWeb
namespace Utf8

open List

/-- A byte of an encoded text. -/
structure Byte where
  char : Char
  place : Nat
deriving DecidableEq

def encodeChar (c : Char) : List Byte := (List.range c.utf8Size).map (Byte.mk c)

/-- `str::as_bytes`. -/
def encode (text : List Char) : List Byte := text.flatMap encodeChar

/-- The characters that begin in some bytes. -/
def decode (bytes : List Byte) : List Char :=
  bytes.filterMap fun b => if b.place = 0 then some b.char else none

/-- `str::len`. -/
def byteLen (text : List Char) : Nat := (encode text).length

/-- `str::is_char_boundary`. -/
def isBoundary (bytes : List Byte) (i : Nat) : Bool :=
  match bytes[i]? with
  | some b => b.place = 0
  | none => i = bytes.length

/-- `&text[s..e]`. -/
def slice (bytes : List Byte) (s e : Nat) : Rust.Outcome (List Char) :=
  if s ≤ e ∧ isBoundary bytes s = true ∧ isBoundary bytes e = true then
    .ok (decode ((bytes.drop s).take (e - s)))
  else
    Rust.overflow

def replaceRange (text : List Char) (s e : Nat) (new : List Char) : Rust.Outcome (List Char) :=
  if s ≤ e then do
    let front ← slice (encode text) 0 s
    let back ← slice (encode text) e (byteLen text)
    .ok (front ++ new ++ back)
  else
    Rust.overflow

@[simp] theorem length_encodeChar (c : Char) : (encodeChar c).length = c.utf8Size := by
  simp [encodeChar]

theorem getElem?_encodeChar (c : Char) {i : Nat} (h : i < c.utf8Size) :
    (encodeChar c)[i]? = some ⟨c, i⟩ := by
  simp [encodeChar, h]

theorem encode_append (u v : List Char) : encode (u ++ v) = encode u ++ encode v := by
  exact flatMap_append

theorem encode_cons (c : Char) (text : List Char) :
    encode (c :: text) = encodeChar c ++ encode text := by
  exact flatMap_cons

@[simp] theorem byteLen_nil : byteLen [] = 0 := by
  rfl

theorem byteLen_cons (c : Char) (text : List Char) :
    byteLen (c :: text) = c.utf8Size + byteLen text := by
  rw [byteLen, encode_cons, length_append, length_encodeChar]
  rfl

theorem byteLen_append (u v : List Char) : byteLen (u ++ v) = byteLen u + byteLen v := by
  rw [byteLen, encode_append, length_append]
  rfl

theorem decode_append (u v : List Byte) : decode (u ++ v) = decode u ++ decode v := by
  exact filterMap_append

theorem decode_encodeChar (c : Char) : decode (encodeChar c) = [c] := by
  obtain ⟨n, hn⟩ := Nat.exists_eq_succ_of_ne_zero (Nat.pos_iff_ne_zero.mp c.utf8Size_pos)
  have hrest : decode ((List.range n).map fun place => Byte.mk c (place + 1)) = [] := by
    unfold decode
    rw [filterMap_map]
    refine filterMap_eq_nil_iff.mpr ?_
    intro place _
    rfl
  have hcons : encodeChar c = ⟨c, 0⟩ :: (List.range n).map fun place => Byte.mk c (place + 1) := by
    rw [encodeChar, hn, range_succ_eq_map, map_cons, map_map]
    rfl
  rw [hcons]
  show c :: decode ((List.range n).map fun place => Byte.mk c (place + 1)) = [c]
  rw [hrest]

@[simp] theorem decode_encode (text : List Char) : decode (encode text) = text := by
  induction text with
  | nil => rfl
  | cons _ _ ih =>
    rw [encode_cons, decode_append, decode_encodeChar, ih]
    rfl

section Bytes

variable {text : List Char} {i : Nat} {b : Byte}

theorem place_lt (h : (encode text)[i]? = some b) : b.place < b.char.utf8Size := by
  have hmem := mem_of_getElem? h
  obtain ⟨c, _, hb⟩ := mem_flatMap.mp hmem
  obtain ⟨place, hplace, rfl⟩ := mem_map.mp hb
  exact mem_range.mp hplace

theorem exists_before (h : (encode text)[i]? = some b) (hb : b.place ≠ 0) :
    ∃ j a, i = j + 1 ∧ (encode text)[j]? = some a ∧ a.char = b.char := by
  induction text generalizing i with
  | nil =>
    simp [encode] at h
  | cons c _ ih =>
    rw [encode_cons] at h ⊢
    by_cases hi : i < c.utf8Size
    · rw [getElem?_append_left (by simpa using hi), getElem?_encodeChar c hi] at h
      cases h
      obtain ⟨j, rfl⟩ := Nat.exists_eq_succ_of_ne_zero hb
      have hj : j < c.utf8Size := Nat.lt_of_succ_lt hi
      refine ⟨j, ⟨c, j⟩, rfl, ?_, rfl⟩
      rw [getElem?_append_left (by simpa using hj), getElem?_encodeChar c hj]
    · have hle : c.utf8Size ≤ i := Nat.le_of_not_lt hi
      rw [getElem?_append_right (by simpa using hle), length_encodeChar] at h
      obtain ⟨j, a, hj, ha, hchar⟩ := ih h
      refine ⟨c.utf8Size + j, a, by omega, ?_, hchar⟩
      rw [getElem?_append_right (by simp), length_encodeChar, Nat.add_sub_cancel_left]
      exact ha

end Bytes

section Boundaries

variable {i : Nat} {text : List Char}

theorem isBoundary_append_right (u : List Byte) {v : List Byte} (h : u.length ≤ i) :
    isBoundary (u ++ v) i = isBoundary v (i - u.length) := by
  unfold isBoundary
  rw [getElem?_append_right h]
  cases v[i - u.length]? with
  | some => rfl
  | none =>
    rw [length_append, decide_eq_decide]
    omega

/-- The boundaries are the lengths of the prefixes. -/
theorem isBoundary_iff :
    isBoundary (encode text) i = true ↔ ∃ u v, text = u ++ v ∧ byteLen u = i := by
  induction text generalizing i with
  | nil =>
    constructor
    · intro h
      have hi : i = 0 := by simpa [isBoundary, encode] using h
      exact ⟨[], [], rfl, hi.symm⟩
    · rintro ⟨u, v, huv, rfl⟩
      obtain ⟨rfl, _⟩ := append_eq_nil_iff.mp huv.symm
      rfl
  | cons c text ih =>
    by_cases hi : i < c.utf8Size
    · have hbyte : (encode (c :: text))[i]? = some ⟨c, i⟩ := by
        rw [encode_cons, getElem?_append_left (by simpa using hi), getElem?_encodeChar c hi]
      have hzero : isBoundary (encode (c :: text)) i = true ↔ i = 0 := by
        simp [isBoundary, hbyte]
      rw [hzero]
      constructor
      · rintro rfl
        exact ⟨[], c :: text, rfl, rfl⟩
      · rintro ⟨u, v, huv, rfl⟩
        cases u with
        | nil => rfl
        | cons =>
          obtain ⟨rfl, _⟩ := List.cons.inj huv
          rw [byteLen_cons] at hi
          omega
    · have hle : (encodeChar c).length ≤ i := by
        simpa using hi
      rw [encode_cons, isBoundary_append_right _ hle, length_encodeChar, ih]
      constructor
      · rintro ⟨u, v, rfl, hu⟩
        refine ⟨c :: u, v, rfl, ?_⟩
        rw [byteLen_cons]
        omega
      · rintro ⟨u, v, huv, rfl⟩
        cases u with
        | nil => exact absurd c.utf8Size_pos hi
        | cons _ u =>
          obtain ⟨rfl, rfl⟩ := List.cons.inj huv
          refine ⟨u, v, rfl, ?_⟩
          rw [byteLen_cons]
          omega

theorem isBoundary_of_append {u w : List Char} (h : isBoundary (encode (u ++ w)) i = true)
    (hle : i ≤ byteLen u) : isBoundary (encode u) i = true := by
  obtain ⟨a, b, hab, ha⟩ := isBoundary_iff.mp h
  obtain ⟨c, hc, _⟩ | ⟨c, hc, _⟩ := append_eq_append_iff.mp hab
  · cases c with
    | nil =>
      rw [append_nil] at hc
      exact isBoundary_iff.mpr ⟨a, [], by rw [hc, append_nil], ha⟩
    | cons x =>
      have hpos := x.utf8Size_pos
      rw [hc, byteLen_append, byteLen_cons] at ha
      omega
  · exact isBoundary_iff.mpr ⟨a, c, hc, ha⟩

theorem prefix_unique {u v w w' : List Char} (h : u ++ w = v ++ w') (hlen : byteLen u = byteLen v) :
    u = v := by
  obtain ⟨c, hc, _⟩ | ⟨c, hc, _⟩ := append_eq_append_iff.mp h
  · cases c with
    | nil => rw [hc, append_nil]
    | cons x =>
      have hpos := x.utf8Size_pos
      rw [hc, byteLen_append, byteLen_cons] at hlen
      omega
  · cases c with
    | nil => rw [hc, append_nil]
    | cons x =>
      have hpos := x.utf8Size_pos
      rw [hc, byteLen_append, byteLen_cons] at hlen
      omega

theorem isBoundary_zero (text : List Char) : isBoundary (encode text) 0 = true := by
  exact isBoundary_iff.mpr ⟨[], text, rfl, rfl⟩

theorem isBoundary_byteLen (text : List Char) : isBoundary (encode text) (byteLen text) = true := by
  exact isBoundary_iff.mpr ⟨text, [], (append_nil text).symm, rfl⟩

theorem le_of_isBoundary (h : isBoundary (encode text) i = true) :
    i ≤ byteLen text := by
  obtain ⟨u, v, rfl, rfl⟩ := isBoundary_iff.mp h
  rw [byteLen_append]
  exact Nat.le_add_right _ _

/-- Two boundaries cut a text in three. -/
theorem exists_pieces {s e : Nat} (hs : isBoundary (encode text) s = true)
    (he : isBoundary (encode text) e = true) (hse : s ≤ e) :
    ∃ u v w, text = u ++ v ++ w ∧ byteLen u = s ∧ byteLen u + byteLen v = e := by
  obtain ⟨u, r, rfl, hu⟩ := isBoundary_iff.mp hs
  have hr : isBoundary (encode r) (e - byteLen u) = true := by
    rw [encode_append, isBoundary_append_right _ (by rw [← hu] at hse; exact hse)] at he
    exact he
  obtain ⟨v, w, rfl, hv⟩ := isBoundary_iff.mp hr
  refine ⟨u, v, w, (append_assoc u v w).symm, hu, ?_⟩
  omega

end Boundaries

/-- A slice between the ends of a piece is the piece. -/
theorem slice_eq_ok (u v w : List Char) :
    slice (encode (u ++ v ++ w)) (byteLen u) (byteLen u + byteLen v) = .ok v := by
  have hs : isBoundary (encode (u ++ v ++ w)) (byteLen u) = true :=
    isBoundary_iff.mpr ⟨u, v ++ w, append_assoc u v w, rfl⟩
  have he : isBoundary (encode (u ++ v ++ w)) (byteLen u + byteLen v) = true :=
    isBoundary_iff.mpr ⟨u ++ v, w, rfl, byteLen_append u v⟩
  have hdrop : (encode (u ++ v ++ w)).drop (byteLen u) = encode v ++ encode w := by
    rw [encode_append, encode_append, append_assoc]
    exact drop_left
  have htake : (encode v ++ encode w).take (byteLen v) = encode v := take_left
  rw [slice, if_pos ⟨Nat.le_add_right _ _, hs, he⟩, hdrop, Nat.add_sub_cancel_left,
    htake, decode_encode]

/-- What a slice is of. -/
theorem exists_of_slice {text v : List Char} {s e : Nat} (h : slice (encode text) s e = .ok v) :
    ∃ u w, text = u ++ v ++ w ∧ byteLen u = s ∧ byteLen u + byteLen v = e := by
  have hcut : s ≤ e ∧ isBoundary (encode text) s = true ∧ isBoundary (encode text) e = true := by
    unfold slice at h
    split_ifs at h with hcut
    · exact hcut
    · cases h
  obtain ⟨u, v', w, rfl, rfl, rfl⟩ := exists_pieces hcut.2.1 hcut.2.2 hcut.1
  rw [slice_eq_ok] at h
  cases h
  exact ⟨u, w, rfl, rfl, rfl⟩

theorem exists_slice {text : List Char} {s e : Nat} (hs : isBoundary (encode text) s = true)
    (he : isBoundary (encode text) e = true) (hse : s ≤ e) :
    ∃ v, slice (encode text) s e = .ok v := by
  obtain ⟨u, v, w, rfl, rfl, rfl⟩ := exists_pieces hs he hse
  exact ⟨v, slice_eq_ok u v w⟩

/-- What a replaced range leaves. -/
theorem replaceRange_eq_ok (u v w new : List Char) :
    replaceRange (u ++ v ++ w) (byteLen u) (byteLen u + byteLen v) new =
      .ok (u ++ new ++ w) := by
  have hfront : slice (encode (u ++ v ++ w)) 0 (byteLen u) = .ok u := by
    have h := slice_eq_ok [] u (v ++ w)
    rw [byteLen_nil, Nat.zero_add, nil_append, ← append_assoc] at h
    exact h
  have hback : slice (encode (u ++ v ++ w)) (byteLen u + byteLen v)
      (byteLen (u ++ v ++ w)) = .ok w := by
    have h := slice_eq_ok (u ++ v) w []
    rw [append_nil, ← byteLen_append (u ++ v) w, byteLen_append u v] at h
    exact h
  rw [replaceRange, if_pos (Nat.le_add_right _ _), hfront]
  show (slice (encode (u ++ v ++ w)) (byteLen u + byteLen v) _ >>= _) = _
  rw [hback]
  rfl

end Utf8
end StudioWeb
