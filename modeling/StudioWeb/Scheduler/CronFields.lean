import StudioWeb.Library.SubstringSearch
import StudioWeb.Scheduler.CanonicalForm
import Mathlib.Data.List.Dedup

/-!
# What the fields of a cron expression denote

A part of a field is written as a range and, after a slash, a step.  `Names` says which values
such a part stands for, and `field` is compared with the union of its parts.

Two things are read another way: a step of one after a single number stands for that number
alone, and a step that is no `u8` is refused.
-/

namespace StudioWeb
namespace Scheduler

open Rust List

def IsFieldChar (c : Char) : Prop := c.isDigit = true ∨ c ∈ [',', '*', '-', '/']

def IsNumber (digits : List Char) : Prop := digits ≠ [] ∧ ∀ c ∈ digits, c.isDigit = true

def IsNumberIn (digits : List Char) (min max : Nat) : Prop :=
  IsNumber digits ∧ min ≤ digitsValue digits ∧ digitsValue digits ≤ max

/-- The range of a part: every value, one number, or the numbers from one to another. -/
inductive PartRange where
  | every
  | one (digits : List Char)
  | span (first last : List Char)

structure FieldPart where
  range : PartRange
  step : Option (List Char)

def PartRange.text : PartRange → List Char
  | .every => ['*']
  | .one digits => digits
  | .span first last => first ++ '-' :: last

def PartRange.Valid (min max : Nat) : PartRange → Prop
  | .every => True
  | .one digits => IsNumberIn digits min max
  | .span first last =>
    IsNumberIn first min max ∧ IsNumberIn last min max ∧ digitsValue first ≤ digitsValue last

def PartRange.first (min : Nat) : PartRange → Nat
  | .every => min
  | .one digits => digitsValue digits
  | .span first _ => digitsValue first

def PartRange.lastRead (step max : Nat) : PartRange → Nat
  | .every => max
  | .one digits => if step = 1 then digitsValue digits else max
  | .span _ last => digitsValue last

namespace FieldPart

def text (p : FieldPart) : List Char :=
  match p.step with
  | none => p.range.text
  | some step => p.range.text ++ '/' :: step

/-- The step, which is one where none is written. -/
def stride (p : FieldPart) : Nat :=
  match p.step with
  | none => 1
  | some step => digitsValue step

structure Valid (p : FieldPart) (min max : Nat) : Prop where
  range : p.range.Valid min max
  step : ∀ step, p.step = some step → IsNumber step ∧ 1 ≤ digitsValue step

/-- The last value a part can name: a number with a step is open to the end. -/
def last (p : FieldPart) (max : Nat) : Nat :=
  match p.range with
  | .every => max
  | .one digits => if p.step.isSome then max else digitsValue digits
  | .span _ last => digitsValue last

/-- The values a part stands for. -/
def Names (p : FieldPart) (min max v : Nat) : Prop :=
  ∃ k, v = p.range.first min + k * p.stride ∧ v ≤ p.last max

def Reads (p : FieldPart) (min max v : Nat) : Prop :=
  ∃ k, v = p.range.first min + k * p.stride ∧ v ≤ p.range.lastRead p.stride max

end FieldPart

/-- A field is written as these parts, each of them well. -/
structure IsField (raw : List Char) (min max : Nat) (parts : List FieldPart) : Prop where
  text : raw.splitOn ',' = parts.map FieldPart.text
  valid : ∀ p ∈ parts, p.Valid min max

structure FieldDenotes (raw : List Char) (min max : Nat) (name : String) : Prop where
  accepted : (∃ values, field raw min max name = .ok values) ↔ ∃ parts, IsField raw min max parts
  denoted : ∀ values parts, field raw min max name = .ok values → IsField raw min max parts →
    values.Pairwise (· < ·) ∧ ∀ v, v ∈ values ↔ ∃ p ∈ parts, p.Names min max v

/-- Every step fits a `u8`, and the values after a number with a step of one are read from
other parts. -/
structure ReadAsWritten (min max : Nat) (parts : List FieldPart) : Prop where
  steps : ∀ p ∈ parts, p.stride ≤ 255
  tails : ∀ p ∈ parts, ∀ digits, p.range = .one digits → p.step.isSome = true → p.stride = 1 →
    ∀ v, digitsValue digits < v → v ≤ max → ∃ q ∈ parts, q.Reads min max v

theorem plain_of_isFieldChar {c : Char} (h : IsFieldChar c) : isWhitespace c = false ∧ c ≠ '+' := by
  have hdigits : ∀ c ∈ durationAlphabet, isWhitespace c = false ∧ c ≠ '+' :=
    forall_mem_of_all (by decide)
  have hothers : ∀ c ∈ [',', '*', '-', '/'], isWhitespace c = false ∧ c ≠ '+' :=
    forall_mem_of_all (by decide)
  rcases h with hdigit | hother
  · exact hdigits c (isDigit_mem_durationAlphabet hdigit)
  · exact hothers c hother

theorem not_mem_number {digits : List Char} {c : Char} (h : IsNumber digits)
    (hc : c ∈ ['*', '-', '/', '+']) : c ∉ digits := by
  have hother : ∀ c ∈ ['*', '-', '/', '+'], c.isDigit = false := forall_mem_of_all (by decide)
  intro hmem
  have hdigit := h.2 c hmem
  rw [hother c hc] at hdigit
  cases hdigit

theorem trim_number {digits : List Char} (h : ∀ c ∈ digits, c.isDigit = true) :
    trim digits = digits :=
  trim_of_no_blank (fun c hc => (plain_of_isFieldChar (Or.inl (h c hc))).1)

section Splitting

variable {delimiter : Char}

theorem splitOnce_at {before behind : List Char} (h : delimiter ∉ before) :
    splitOnce delimiter (before ++ delimiter :: behind) = some (before, behind) := by
  have hskip : ∀ c ∈ before, (c != delimiter) = true := by
    intro c hc
    rw [bne_iff_ne]
    rintro rfl
    exact h hc
  unfold splitOnce
  rw [dropWhile_append_of_pos hskip, takeWhile_append_of_pos hskip]
  simp

theorem splitOnce_none {text : List Char} (h : delimiter ∉ text) :
    splitOnce delimiter text = none := by
  have hskip : ∀ c ∈ text, (c != delimiter) = true := by
    intro c hc
    rw [bne_iff_ne]
    rintro rfl
    exact h hc
  unfold splitOnce
  rw [dropWhile_eq_nil_iff.mpr hskip]

theorem mem_of_mem_splitOn {text : List Char} :
    ∀ piece ∈ text.splitOn delimiter, ∀ c ∈ piece, c ∈ text := by
  induction text with
  | nil =>
    simp
  | cons d text ih =>
    intro piece hpiece c hc
    rw [splitOn_cons_eq_if_modifyHead] at hpiece
    split at hpiece
    · rcases mem_cons.mp hpiece with rfl | hrest
      · cases hc
      · exact mem_cons_of_mem d (ih piece hrest c hc)
    · cases hpieces : text.splitOn delimiter with
      | nil => exact absurd hpieces (splitOn_ne_nil delimiter text)
      | cons first =>
        rw [hpieces] at hpiece ih
        rcases mem_cons.mp hpiece with rfl | hrest
        · rcases mem_cons.mp hc with rfl | hfirst
          · exact mem_cons_self
          · exact mem_cons_of_mem d (ih first mem_cons_self c hfirst)
        · exact mem_cons_of_mem d (ih piece (mem_cons_of_mem first hrest) c hc)

theorem mapM_eq_ok_iff {α β : Type} {f : α → Outcome β} :
    ∀ {items : List α} {values : List β},
      items.mapM f = .ok values ↔ List.Forall₂ (fun item value => f item = .ok value) items values
  | [], values => by
    cases values with
    | nil => exact ⟨fun _ => .nil, fun _ => rfl⟩
    | cons =>
      constructor
      · intro h
        cases h
      · intro h
        cases h
  | item :: items, values => by
    rw [mapM_cons, bind_eq_ok_iff]
    constructor
    · rintro ⟨value, hitem, hrest⟩
      obtain ⟨rest, hitems, hvalues⟩ := bind_eq_ok_iff.mp hrest
      cases hvalues
      exact .cons hitem (mapM_eq_ok_iff.mp hitems)
    · intro h
      cases h with
      | cons hitem hitems =>
        exact ⟨_, hitem, bind_eq_ok_iff.mpr ⟨_, mapM_eq_ok_iff.mpr hitems, rfl⟩⟩

end Splitting

theorem parseUnsigned_eq_some_iff {max value : Nat} {text : List Char} (h : '+' ∉ text) :
    parseUnsigned max text = some value ↔
      IsNumber text ∧ digitsValue text ≤ max ∧ digitsValue text = value := by
  have hplain : parseUnsigned max text = parseDigits max text := by
    unfold parseUnsigned
    split
    · exact absurd mem_cons_self h
    · rfl
  rw [hplain]
  unfold parseDigits IsNumber
  split
  · next hread =>
    obtain ⟨hne, hall, hle⟩ := hread
    have hdigits := all_eq_true.mp hall
    rw [Option.some.injEq]
    exact ⟨fun heq => ⟨⟨hne, hdigits⟩, hle, heq⟩, fun hnumber => hnumber.2.2⟩
  · next hread =>
    constructor
    · intro hsome
      cases hsome
    · rintro ⟨⟨hne, hdigits⟩, hle, _⟩
      exact absurd ⟨hne, all_eq_true.mpr hdigits, hle⟩ hread

theorem parseIn_eq_ok_iff {raw : List Char} {min max value : Nat} {name : String}
    (hraw : ∀ c ∈ raw, IsFieldChar c) (hmax : max < 255) :
    parseIn raw min max name = .ok value ↔ IsNumberIn raw min max ∧ digitsValue raw = value := by
  have htrim : trim raw = raw := trim_of_no_blank (fun c hc => (plain_of_isFieldChar (hraw c hc)).1)
  have hplus : '+' ∉ raw := fun hmem => (plain_of_isFieldChar (hraw '+' hmem)).2 rfl
  unfold parseIn IsNumberIn
  rw [htrim]
  cases hread : parseUnsigned 255 raw with
  | none =>
    constructor
    · intro h
      cases h
    · rintro ⟨⟨hnumber, _, hto⟩, hvalue⟩
      have hsome := (parseUnsigned_eq_some_iff hplus).mpr
        ⟨hnumber, (by omega : digitsValue raw ≤ 255), rfl⟩
      rw [hread] at hsome
      cases hsome
  | some =>
    obtain ⟨hnumber, _, hvalue⟩ := (parseUnsigned_eq_some_iff hplus).mp hread
    subst hvalue
    simp only
    split
    · next _ =>
      constructor
      · intro h
        cases h
      · rintro ⟨⟨_, hmin, hto⟩, _⟩
        omega
    · next _ =>
      constructor
      · intro h
        cases h
        exact ⟨⟨hnumber, by omega, by omega⟩, rfl⟩
      · rintro ⟨_, rfl⟩
        rfl

theorem mem_stepValues {step last : Nat} (hlast : last < 255) :
    ∀ {fuel value v : Nat}, v ∈ stepValues step last fuel value ↔
        ∃ k, k < fuel ∧ v = value + k * step ∧ v ≤ last
  | 0, value, v => by
    simp [stepValues]
  | fuel + 1, value, v => by
    unfold stepValues
    split
    · next hle =>
      rw [mem_cons, mem_stepValues hlast]
      constructor
      · rintro (rfl | ⟨k, hk, hv, hto⟩)
        · exact ⟨0, by omega, by omega, hle⟩
        · refine ⟨k + 1, by omega, ?_, hto⟩
          have hmin : Nat.min 255 (value + step) = min 255 (value + step) := rfl
          rw [Nat.succ_mul]
          omega
      · rintro ⟨k, hk, hv, hto⟩
        cases k with
        | zero =>
          left
          omega
        | succ k =>
          right
          rw [Nat.succ_mul] at hv
          have hmin : Nat.min 255 (value + step) = min 255 (value + step) := rfl
          exact ⟨k, by omega, by omega, hto⟩
    · next _ =>
      constructor
      · intro h
        cases h
      · rintro ⟨k, _, hv, hto⟩
        omega

section Parts

variable {min max : Nat} {name : String}

variable {r : PartRange} {p : FieldPart} {step : Nat} {values : List Nat}

theorem chars_of_range (h : r.Valid min max) :
    ∀ c ∈ r.text, IsFieldChar c ∧ c ≠ '/' := by
  have hnumber : ∀ {digits : List Char}, IsNumber digits →
      ∀ c ∈ digits, IsFieldChar c ∧ c ≠ '/' := by
    intro digits hdigits c hc
    refine ⟨Or.inl (hdigits.2 c hc), ?_⟩
    rintro rfl
    exact not_mem_number hdigits (by decide) hc
  cases r with
  | every =>
    intro c hc
    rw [mem_singleton.mp hc]
    exact ⟨Or.inr (by decide), by decide⟩
  | one => exact hnumber h.1
  | span =>
    intro c hc
    rcases mem_append.mp hc with hfirst | hrest
    · exact hnumber h.1.1 c hfirst
    · rcases mem_cons.mp hrest with rfl | hlast
      · exact ⟨Or.inr (by decide), by decide⟩
      · exact hnumber h.2.1.1 c hlast

theorem chars_of_part (h : p.Valid min max) : ∀ c ∈ p.text, IsFieldChar c := by
  obtain ⟨range, step⟩ := p
  have hrange := chars_of_range h.range
  cases step with
  | none => exact fun c hc => (hrange c hc).1
  | some step =>
    intro c hc
    rcases mem_append.mp hc with hbefore | hrest
    · exact (hrange c hbefore).1
    · rcases mem_cons.mp hrest with rfl | hstep
      · exact Or.inr (by decide)
      · exact Or.inl ((h.step step rfl).1.2 c hstep)

theorem range_ne_nil (h : r.Valid min max) : r.text ≠ [] := by
  cases r with
  | every => exact cons_ne_nil '*' []
  | one => exact h.1.1
  | span first last => exact append_ne_nil_of_right_ne_nil first (cons_ne_nil '-' last)

theorem fieldBounds_text (h : r.Valid min max) (hmax : max < 255) :
    fieldBounds r.text step min max name = .ok (r.first min, r.lastRead step max) := by
  have hchars := chars_of_range h
  cases r with
  | every => rfl
  | one digits =>
    have hstar : digits ≠ ['*'] := by
      rintro rfl
      exact not_mem_number h.1 (by decide) mem_cons_self
    have hread : parseIn digits min max name = .ok (digitsValue digits) :=
      (parseIn_eq_ok_iff (fun c hc => (hchars c hc).1) hmax).mpr ⟨h, rfl⟩
    unfold fieldBounds PartRange.text
    rw [if_neg hstar, splitOnce_none (not_mem_number h.1 (by decide))]
    simp only [hread, bind, Except.bind, PartRange.first, PartRange.lastRead]
    split
    · rfl
    · rfl
  | span first last =>
    obtain ⟨hfirst, hlast, _⟩ := h
    have hstar : first ++ '-' :: last ≠ ['*'] := by
      intro heq
      have hmem : '-' ∈ first ++ '-' :: last := by simp
      rw [heq] at hmem
      exact absurd hmem (by decide)
    have hreadFirst : parseIn first min max name = .ok (digitsValue first) :=
      (parseIn_eq_ok_iff (fun c hc => Or.inl (hfirst.1.2 c hc)) hmax).mpr ⟨hfirst, rfl⟩
    have hreadLast : parseIn last min max name = .ok (digitsValue last) :=
      (parseIn_eq_ok_iff (fun c hc => Or.inl (hlast.1.2 c hc)) hmax).mpr ⟨hlast, rfl⟩
    unfold fieldBounds PartRange.text
    rw [if_neg hstar, splitOnce_at (not_mem_number hfirst.1 (by decide))]
    simp only [hreadFirst, hreadLast, bind, Except.bind]
    rfl

theorem text_of_fieldBounds {range : List Char} {step first last : Nat}
    (hchars : ∀ c ∈ range, IsFieldChar c) (hmax : max < 255)
    (h : fieldBounds range step min max name = .ok (first, last)) (hle : first ≤ last) :
    ∃ r : PartRange, r.text = range ∧ r.Valid min max := by
  unfold fieldBounds at h
  split at h
  · next hstar => exact ⟨.every, hstar.symm, trivial⟩
  · split at h
    · next before behind hsplit =>
      have htext := eq_of_splitOnce hsplit
      subst htext
      obtain ⟨low, hlow, hrest⟩ := bind_eq_ok_iff.mp h
      obtain ⟨high, hhigh, hpair⟩ := bind_eq_ok_iff.mp hrest
      cases hpair
      have hbefore := (parseIn_eq_ok_iff
        (fun c hc => hchars c (mem_append_left _ hc)) hmax).mp hlow
      have hbehind := (parseIn_eq_ok_iff
        (fun c hc => hchars c (mem_append_right _ (mem_cons_of_mem _ hc))) hmax).mp hhigh
      refine ⟨.span before behind, rfl, hbefore.1, hbehind.1, ?_⟩
      rw [hbefore.2, hbehind.2]
      exact hle
    · obtain ⟨one, hone, _⟩ := bind_eq_ok_iff.mp h
      exact ⟨.one range, rfl, ((parseIn_eq_ok_iff hchars hmax).mp hone).1⟩

theorem fieldStep_text {read : List Char × Nat} (h : p.Valid min max) :
    fieldStep p.text name = .ok read ↔ p.stride ≤ 255 ∧ read = (p.range.text, p.stride) := by
  obtain ⟨range, step⟩ := p
  have hslash : '/' ∉ range.text := fun hmem => (chars_of_range h.range '/' hmem).2 rfl
  unfold fieldStep FieldPart.text FieldPart.stride
  cases step with
  | none =>
    simp only [splitOnce_none hslash, Except.ok.injEq]
    exact ⟨fun heq => ⟨by omega, heq.symm⟩, fun heq => heq.2.symm⟩
  | some step =>
    obtain ⟨hnumber, hpos⟩ := h.step step rfl
    have hplus : '+' ∉ step := not_mem_number hnumber (by decide)
    simp only [splitOnce_at hslash, trim_number hnumber.2]
    by_cases hle : digitsValue step ≤ 255
    · have hread : parseUnsigned 255 step = some (digitsValue step) :=
        (parseUnsigned_eq_some_iff hplus).mpr ⟨hnumber, hle, rfl⟩
      obtain ⟨less, hless⟩ := Nat.exists_eq_add_of_le' hpos
      rw [hread, hless]
      simp only [Except.ok.injEq]
      exact ⟨fun heq => ⟨by omega, heq.symm⟩, fun heq => heq.2.symm⟩
    · have hread : parseUnsigned 255 step = none := by
        rw [Option.eq_none_iff_forall_ne_some]
        intro value hsome
        exact hle ((parseUnsigned_eq_some_iff hplus).mp hsome).2.1
      rw [hread]
      constructor
      · intro heq
        cases heq
      · rintro ⟨hto, _⟩
        exact absurd hto hle

theorem first_le_lastRead (h : r.Valid min max) (hrange : min ≤ max) :
    r.first min ≤ r.lastRead step max := by
  cases r with
  | every => exact hrange
  | one digits =>
    simp only [PartRange.first, PartRange.lastRead]
    split
    · exact le_refl (digitsValue digits)
    · exact h.2.2
  | span => exact h.2.2

theorem lastRead_le (h : r.Valid min max) :
    r.lastRead step max ≤ max := by
  cases r with
  | every => exact le_refl max
  | one =>
    simp only [PartRange.lastRead]
    split
    · exact h.2.2
    · exact le_refl max
  | span => exact h.2.1.2.2

/-- What a part that is written well is read as. -/
theorem fieldPart_text (h : p.Valid min max) (hrange : min ≤ max) (hmax : max < 255) :
    fieldPart p.text min max name = .ok values ↔ p.stride ≤ 255 ∧
        values = stepValues p.stride (p.range.lastRead p.stride max) 256 (p.range.first min) := by
  have htrim : trim p.text = p.text :=
    trim_of_no_blank (fun c hc => (plain_of_isFieldChar (chars_of_part h c hc)).1)
  have hne : p.text ≠ [] := by
    have hbefore := range_ne_nil h.range
    unfold FieldPart.text
    split
    · exact hbefore
    · exact append_ne_nil_of_left_ne_nil hbefore _
  have horder : ¬ p.range.lastRead p.stride max < p.range.first min :=
    Nat.not_lt.mpr (first_le_lastRead h.range hrange)
  unfold fieldPart
  rw [htrim, if_neg hne, bind_eq_ok_iff]
  constructor
  · rintro ⟨read, hstep, hrest⟩
    obtain ⟨hle, rfl⟩ := (fieldStep_text h).mp hstep
    obtain ⟨bounds, hbounds, hvalues⟩ := bind_eq_ok_iff.mp hrest
    rw [fieldBounds_text h.range hmax] at hbounds
    cases hbounds
    simp only [if_neg horder, Except.ok.injEq] at hvalues
    exact ⟨hle, hvalues.symm⟩
  · rintro ⟨hle, rfl⟩
    refine ⟨_, (fieldStep_text h).mpr ⟨hle, rfl⟩, ?_⟩
    simp only [fieldBounds_text h.range hmax, bind, Except.bind, if_neg horder]

/-- What is read is written well. -/
theorem text_of_fieldPart {part : List Char} (hchars : ∀ c ∈ part, IsFieldChar c) (hmax : max < 255)
    (h : fieldPart part min max name = .ok values) :
    ∃ p : FieldPart, p.text = part ∧ p.Valid min max := by
  have htrim : ∀ {text : List Char}, (∀ c ∈ text, IsFieldChar c) → trim text = text :=
    fun htext => trim_of_no_blank (fun c hc => (plain_of_isFieldChar (htext c hc)).1)
  unfold fieldPart at h
  rw [htrim hchars] at h
  split at h
  · cases h
  · obtain ⟨⟨range, step⟩, hstep, hrest⟩ := bind_eq_ok_iff.mp h
    obtain ⟨⟨first, last⟩, hbounds, hvalues⟩ := bind_eq_ok_iff.mp hrest
    have hle : first ≤ last := by
      by_contra hlt
      simp only [if_pos (Nat.lt_of_not_le hlt)] at hvalues
      cases hvalues
    unfold fieldStep at hstep
    split at hstep
    · cases hstep
      obtain ⟨r, htext, hvalid⟩ := text_of_fieldBounds hchars hmax hbounds hle
      exact ⟨⟨r, none⟩, htext, hvalid, nofun⟩
    · next _ behind hsplit =>
      have htext := eq_of_splitOnce hsplit
      subst htext
      have hbehind : ∀ c ∈ behind, IsFieldChar c :=
        fun c hc => hchars c (mem_append_right _ (mem_cons_of_mem _ hc))
      have hplus : '+' ∉ behind := fun hmem => (plain_of_isFieldChar (hbehind '+' hmem)).2 rfl
      rw [htrim hbehind] at hstep
      split at hstep
      · cases hstep
      · cases hstep
      · next _ hzero hread =>
        cases hstep
        obtain ⟨hnumber, _, hvalue⟩ := (parseUnsigned_eq_some_iff hplus).mp hread
        obtain ⟨r, htext, hvalid⟩ := text_of_fieldBounds
          (fun c hc => hchars c (mem_append_left _ hc)) hmax hbounds hle
        refine ⟨⟨r, some behind⟩, ?_, hvalid, ?_⟩
        · unfold FieldPart.text
          rw [htext]
        · intro digits hdigits
          cases hdigits
          refine ⟨hnumber, Nat.one_le_iff_ne_zero.mpr ?_⟩
          rw [hvalue]
          rintro rfl
          exact hzero rfl

theorem mem_fieldPart {v : Nat} (h : p.Valid min max)
    (hrange : min ≤ max) (hmax : max < 255) (hread : fieldPart p.text min max name = .ok values) :
    v ∈ values ↔ p.Reads min max v := by
  obtain ⟨hstep, rfl⟩ := (fieldPart_text h hrange hmax).mp hread
  have hlast := @lastRead_le min max p.range p.stride h.range
  rw [mem_stepValues (by omega)]
  constructor
  · rintro ⟨k, _, hv, hto⟩
    exact ⟨k, hv, hto⟩
  · rintro ⟨k, hv, hto⟩
    refine ⟨k, ?_, hv, hto⟩
    have hpos : 1 ≤ p.stride := by
      obtain ⟨range, step⟩ := p
      cases step with
      | none => exact le_refl 1
      | some step => exact (h.step step rfl).2
    have hmul : k ≤ k * p.stride := Nat.le_mul_of_pos_right k hpos
    omega

theorem names_of_reads {v : Nat} (h : p.Valid min max)
    (hreads : p.Reads min max v) : p.Names min max v := by
  obtain ⟨k, hv, hto⟩ := hreads
  refine ⟨k, hv, le_trans hto ?_⟩
  obtain ⟨range, step⟩ := p
  cases range with
  | every => exact le_refl max
  | one digits =>
    cases step with
    | none => exact le_refl (digitsValue digits)
    | some => exact lastRead_le h.range
  | span _ last => exact le_refl (digitsValue last)

/-- What a part names, it is read as, or it is a number with a step of one and the value comes
after the number. -/
theorem reads_of_names {v : Nat} (hnames : p.Names min max v) :
    p.Reads min max v ∨ ∃ digits, p.range = .one digits ∧ p.step.isSome = true ∧ p.stride = 1 ∧
        digitsValue digits < v ∧ v ≤ max := by
  obtain ⟨k, hv, hto⟩ := hnames
  obtain ⟨range, step⟩ := p
  cases range with
  | every => exact Or.inl ⟨k, hv, hto⟩
  | span => exact Or.inl ⟨k, hv, hto⟩
  | one digits =>
    cases step with
    | none => exact Or.inl ⟨k, hv, hto⟩
    | some step =>
      by_cases hone : digitsValue step = 1
      · by_cases hself : v = digitsValue digits
        · refine Or.inl ⟨0, ?_, ?_⟩
          · simp only [PartRange.first]
            omega
          · rw [hself]
            exact le_of_eq (if_pos hone).symm
        · refine Or.inr ⟨digits, rfl, rfl, hone, ?_, hto⟩
          simp only [PartRange.first] at hv
          omega
      · refine Or.inl ⟨k, hv, ?_⟩
        exact le_trans hto (le_of_eq (if_neg hone).symm)

end Parts

section Fields

variable {raw : List Char} {min max : Nat} {name : String}

variable {values : List Nat}

section

variable (hchars : ∀ c ∈ raw, IsFieldChar c)
include hchars

theorem field_eq_ok_iff :
    field raw min max name = .ok values ↔
      ∃ lists, List.Forall₂ (fun piece list => fieldPart piece min max name = .ok list)
          (raw.splitOn ',') lists ∧
        values = (lists.flatten.insertionSort (· ≤ ·)).dedup := by
  have htrim : trim raw = raw :=
    trim_of_no_blank (fun c hc => (plain_of_isFieldChar (hchars c hc)).1)
  unfold field
  rw [htrim, bind_eq_ok_iff]
  constructor
  · rintro ⟨lists, hlists, hvalues⟩
    cases hvalues
    exact ⟨lists, mapM_eq_ok_iff.mp hlists, rfl⟩
  · rintro ⟨lists, hlists, rfl⟩
    exact ⟨lists, mapM_eq_ok_iff.mpr hlists, rfl⟩

theorem exists_isField (hmax : max < 255)
    (h : field raw min max name = .ok values) : ∃ parts, IsField raw min max parts := by
  have hpieces : ∀ pieces lists, (∀ piece ∈ pieces, ∀ c ∈ piece, IsFieldChar c) →
      List.Forall₂ (fun piece list => fieldPart piece min max name = .ok list) pieces lists →
      ∃ parts : List FieldPart, pieces = parts.map FieldPart.text ∧
        ∀ p ∈ parts, p.Valid min max := by
    intro pieces lists hpieces hread
    induction hread with
    | nil => exact ⟨[], rfl, nofun⟩
    | cons hpiece _ ih =>
      obtain ⟨p, htext, hvalid⟩ := text_of_fieldPart (hpieces _ mem_cons_self) hmax hpiece
      obtain ⟨parts, hparts, hvalids⟩ := ih (fun piece hin => hpieces piece (mem_cons_of_mem _ hin))
      refine ⟨p :: parts, ?_, ?_⟩
      · rw [map_cons, htext, hparts]
      · intro q hq
        rcases mem_cons.mp hq with rfl | hq
        · exact hvalid
        · exact hvalids q hq
  obtain ⟨lists, hread, _⟩ := (field_eq_ok_iff hchars).mp h
  obtain ⟨parts, htext, hvalid⟩ := hpieces (raw.splitOn ',') lists
    (fun piece hin c hc => hchars c (mem_of_mem_splitOn piece hin c hc)) hread
  exact ⟨parts, htext, hvalid⟩

theorem field_isField {parts : List FieldPart}
    (hrange : min ≤ max) (hmax : max < 255) (h : IsField raw min max parts) :
    (∃ values, field raw min max name = .ok values) ↔ ∀ p ∈ parts, p.stride ≤ 255 := by
  have hparts : ∀ parts : List FieldPart, (∀ p ∈ parts, p.Valid min max) →
      ((∃ lists, List.Forall₂ (fun piece list => fieldPart piece min max name = .ok list)
          (parts.map FieldPart.text) lists) ↔ ∀ p ∈ parts, p.stride ≤ 255) := by
    intro parts hvalid
    induction parts with
    | nil => exact ⟨fun _ => nofun, fun _ => ⟨[], .nil⟩⟩
    | cons p _ ih =>
      have hrest := ih (fun q hq => hvalid q (mem_cons_of_mem p hq))
      have hp := hvalid p mem_cons_self
      rw [forall_mem_cons, ← hrest]
      constructor
      · rintro ⟨lists, hread⟩
        cases hread with
        | cons hpiece hpieces =>
          exact ⟨((fieldPart_text hp hrange hmax).mp hpiece).1, _, hpieces⟩
      · rintro ⟨hstep, lists, hpieces⟩
        exact ⟨_, .cons ((fieldPart_text hp hrange hmax).mpr ⟨hstep, rfl⟩) hpieces⟩
  rw [← hparts parts h.valid, ← h.text]
  constructor
  · rintro ⟨values, hread⟩
    obtain ⟨lists, hlists, _⟩ := (field_eq_ok_iff hchars).mp hread
    exact ⟨lists, hlists⟩
  · rintro ⟨lists, hlists⟩
    exact ⟨_, (field_eq_ok_iff hchars).mpr ⟨lists, hlists, rfl⟩⟩

theorem mem_field {parts : List FieldPart} {v : Nat} (hrange : min ≤ max) (hmax : max < 255)
    (h : IsField raw min max parts) (hread : field raw min max name = .ok values) :
    v ∈ values ↔ ∃ p ∈ parts, p.Reads min max v := by
  have hparts : ∀ (parts : List FieldPart) lists, (∀ p ∈ parts, p.Valid min max) →
      List.Forall₂ (fun piece list => fieldPart piece min max name = .ok list)
        (parts.map FieldPart.text) lists →
      (v ∈ lists.flatten ↔ ∃ p ∈ parts, p.Reads min max v) := by
    intro parts
    induction parts with
    | nil =>
      intro lists _ hlists
      cases hlists
      simp
    | cons p _ ih =>
      intro lists hvalid hlists
      cases hlists with
      | cons hpiece hpieces =>
        have hp := mem_fieldPart (v := v) (hvalid p mem_cons_self) hrange hmax hpiece
        have hrest := ih _ (fun q hq => hvalid q (mem_cons_of_mem p hq)) hpieces
        rw [flatten_cons, mem_append, hp, hrest, exists_mem_cons_iff]
  obtain ⟨lists, hlists, rfl⟩ := (field_eq_ok_iff hchars).mp hread
  rw [h.text] at hlists
  rw [mem_dedup, mem_insertionSort]
  exact hparts parts lists h.valid hlists

theorem field_sorted (h : field raw min max name = .ok values) : values.Pairwise (· < ·) := by
  obtain ⟨lists, _, rfl⟩ := (field_eq_ok_iff hchars).mp h
  have hsorted := (pairwise_insertionSort (· ≤ ·) lists.flatten).sublist
    (dedup_sublist (lists.flatten.insertionSort (· ≤ ·)))
  have hnodup := nodup_dedup (lists.flatten.insertionSort (· ≤ ·))
  exact (hsorted.and hnodup).imp (fun hpair => lt_of_le_of_ne hpair.1 hpair.2)

end

/-- A field denotes the union of its parts unless a step is no `u8`, or a number with a step of
one stands for values that no other part has. -/
theorem field_denotes_iff (raw : List Char) (min max : Nat) (name : String)
    (hchars : ∀ c ∈ raw, IsFieldChar c) (hrange : min ≤ max) (hmax : max < 255) :
    FieldDenotes raw min max name ↔
      ∀ parts, IsField raw min max parts → ReadAsWritten min max parts := by
  constructor
  · intro h parts hparts
    obtain ⟨values, hread⟩ := h.accepted.mpr ⟨parts, hparts⟩
    refine ⟨(field_isField hchars hrange hmax hparts).mp ⟨values, hread⟩, ?_⟩
    intro p hp digits hone hstep hstride v hafter hto
    have hnames : p.Names min max v := by
      refine ⟨v - digitsValue digits, ?_, ?_⟩
      · rw [hone, hstride, PartRange.first]
        omega
      · unfold FieldPart.last
        rw [hone]
        simp only [hstep, if_pos]
        exact hto
    have hin := ((h.denoted values parts hread hparts).2 v).mpr ⟨p, hp, hnames⟩
    exact (mem_field hchars hrange hmax hparts hread).mp hin
  · intro h
    refine ⟨⟨?_, ?_⟩, ?_⟩
    · rintro ⟨values, hread⟩
      exact exists_isField hchars hmax hread
    · rintro ⟨parts, hparts⟩
      exact (field_isField hchars hrange hmax hparts).mpr (h parts hparts).steps
    · intro values parts hread hparts
      refine ⟨field_sorted hchars hread, fun v => ?_⟩
      rw [mem_field hchars hrange hmax hparts hread]
      constructor
      · rintro ⟨p, hp, hreads⟩
        exact ⟨p, hp, names_of_reads (hparts.valid p hp) hreads⟩
      · rintro ⟨p, hp, hnames⟩
        rcases reads_of_names hnames with hreads | ⟨digits, hone, hstep, hstride, hafter, hto⟩
        · exact ⟨p, hp, hreads⟩
        · exact (h parts hparts).tails p hp digits hone hstep hstride v hafter hto

/-- `9-17/4`: at nine, at one and at five. -/
theorem office_hours_denote : FieldDenotes "9-17/4".toList 0 23 "hour" := by
  have hchars : ∀ c ∈ "9-17/4".toList, IsFieldChar c := by
    unfold IsFieldChar
    exact forall_mem_of_all (by decide)
  refine (field_denotes_iff "9-17/4".toList 0 23 "hour" hchars (by decide) (by decide)).mpr ?_
  intro parts hparts
  refine ⟨(field_isField hchars (by decide) (by decide) hparts).mp
    ⟨[9, 13, 17], (by decide +kernel : field "9-17/4".toList 0 23 "hour" = .ok [9, 13, 17])⟩, ?_⟩
  intro p hp digits hone
  have hmem : p.text ∈ ["9-17/4".toList] := by
    have hpieces := hparts.text
    rw [show "9-17/4".toList.splitOn ',' = ["9-17/4".toList] by decide +kernel] at hpieces
    rw [hpieces]
    exact mem_map_of_mem hp
  have hdash : '-' ∈ p.text := by
    rw [mem_singleton.mp hmem]
    decide
  -- a single number and its step have no dash
  have hvalid := hparts.valid p hp
  obtain ⟨range, step⟩ := p
  subst hone
  have hnumber : '-' ∉ digits := not_mem_number hvalid.range.1 (by decide)
  cases step with
  | none => exact absurd hdash hnumber
  | some step =>
    have hstep : '-' ∉ step := not_mem_number (hvalid.step step rfl).1 (by decide)
    simp [FieldPart.text, PartRange.text, hnumber, hstep] at hdash

/-- `5/1` is read as the five alone. -/
theorem from_five_on_is_five : ¬ FieldDenotes "5/1".toList 0 59 "minute" := by
  intro h
  have hparts : IsField "5/1".toList 0 59 [⟨.one ['5'], some ['1']⟩] := by
    refine ⟨by decide +kernel, ?_⟩
    intro p hp
    cases mem_singleton.mp hp
    refine ⟨⟨⟨by decide, forall_mem_of_all (by decide)⟩, by decide⟩, ?_⟩
    rintro step ⟨⟩
    exact ⟨⟨by decide, forall_mem_of_all (by decide)⟩, by decide⟩
  have hread : field "5/1".toList 0 59 "minute" = .ok [5] := by
    decide +kernel
  have hsix := ((h.denoted [5] _ hread hparts).2 6).mpr
    ⟨_, mem_singleton_self _, 1, by decide, by decide⟩
  exact absurd hsix (by decide)

end Fields

end Scheduler
end StudioWeb
