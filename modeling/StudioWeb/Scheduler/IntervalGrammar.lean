import StudioWeb.Scheduler.CanonicalForm

/-!
# The language of intervals

An interval is written as numbers that stand right before their units, those of days and weeks
before a `T` and those of hours, minutes and seconds after it.  The parser reads the two parts
one after the other with one accumulator for the digits, and adds up what it reads in the range
of a duration.

`unitsRead` is what is read without that range: the pairs before the reader stops, and the
digits that are left where it comes to the end of a part.
-/

namespace StudioWeb
namespace Scheduler

open Rust CivilTime List Option

/-- A number and the unit that stands right after it. -/
structure UnitPair where
  digits : List Char
  unit : Char
deriving DecidableEq

def UnitPair.text (p : UnitPair) : List Char := p.digits ++ [p.unit]

def UnitPair.seconds (p : UnitPair) : Int := digitsValue p.digits * unitSeconds p.unit

/-- A pair of a part whose units are `units`. -/
def UnitPair.WellFormed (units : List Char) (p : UnitPair) : Prop :=
  p.digits ≠ [] ∧ (∀ c ∈ p.digits, c.isDigit = true) ∧ p.unit ∈ units

def pairsText (pairs : List UnitPair) : List Char := pairs.flatMap UnitPair.text

def pairsSeconds (pairs : List UnitPair) : Int := (pairs.map UnitPair.seconds).sum

def dateUnits : List Char := ['D', 'W']

def timeUnits : List Char := ['H', 'M', 'S']

theorem dateUnits_not_digit : ∀ u ∈ dateUnits, u.isDigit = false := by
  simp [dateUnits, Char.isDigit]

theorem timeUnits_not_digit : ∀ u ∈ timeUnits, u.isDigit = false := by
  simp [timeUnits, Char.isDigit]

@[simp] theorem pairsText_nil : pairsText [] = [] := by
  rfl

@[simp] theorem pairsText_cons (p : UnitPair) (pairs : List UnitPair) :
    pairsText (p :: pairs) = p.digits ++ p.unit :: pairsText pairs := by
  simp [pairsText, UnitPair.text]

@[simp] theorem pairsSeconds_nil : pairsSeconds [] = 0 := by
  rfl

@[simp] theorem pairsSeconds_cons (p : UnitPair) (pairs : List UnitPair) :
    pairsSeconds (p :: pairs) = p.seconds + pairsSeconds pairs := by
  simp [pairsSeconds]

theorem one_le_unitSeconds (unit : Char) : 1 ≤ unitSeconds unit := by
  unfold unitSeconds
  split <;> decide

theorem UnitPair.value_le_seconds (p : UnitPair) : (digitsValue p.digits : Int) ≤ p.seconds :=
  calc (digitsValue p.digits : Int) = digitsValue p.digits * 1 := (mul_one _).symm
    _ ≤ digitsValue p.digits * unitSeconds p.unit :=
        mul_le_mul_of_nonneg_left (one_le_unitSeconds p.unit) (by omega)

theorem UnitPair.seconds_nonneg (p : UnitPair) : 0 ≤ p.seconds := by
  have hvalue := p.value_le_seconds
  omega

theorem pairsSeconds_nonneg (pairs : List UnitPair) : 0 ≤ pairsSeconds pairs := by
  induction pairs with
  | nil =>
    exact le_refl 0
  | cons p =>
    have hp := p.seconds_nonneg
    rw [pairsSeconds_cons]
    omega

theorem UnitPair.seconds_le {p : UnitPair} {pairs : List UnitPair} (h : p ∈ pairs) :
    p.seconds ≤ pairsSeconds pairs := by
  induction pairs with
  | nil =>
    cases h
  | cons q pairs ih =>
    rw [pairsSeconds_cons]
    rcases mem_cons.mp h with rfl | h
    · have hrest := pairsSeconds_nonneg pairs
      omega
    · have hp := ih h
      have hq := q.seconds_nonneg
      omega

section Reading

/-- What is read of a part after some digits: the pairs before the reader stops, and the digits
left at its end (`none` where it stops before). -/
def unitsRead (units : List Char) : List Char → List Char → List UnitPair × Option (List Char)
  | [], number => ([], some number)
  | c :: rest, number =>
    if c.isDigit then
      unitsRead units rest (number ++ [c])
    else if c ∈ units ∧ number ≠ [] ∧ (digitsValue number : Int) ≤ i64Max then
      let after := unitsRead units rest []
      (⟨number, c⟩ :: after.1, after.2)
    else
      ([], none)

variable {raw units : List Char}

theorem parseDigits_eq {number : List Char} (hdigits : ∀ c ∈ number, c.isDigit = true) :
    parseDigits i64Max.toNat number = if number ≠ [] ∧ (digitsValue number : Int) ≤ i64Max then
          some (digitsValue number)
        else
          none := by
  have hall : number.all Char.isDigit = true := List.all_eq_true.mpr hdigits
  have hmax : digitsValue number ≤ i64Max.toNat ↔ (digitsValue number : Int) ≤ i64Max := by
    have hpos : (0 : Int) ≤ i64Max := by decide
    omega
  simp only [parseDigits, hall, hmax, true_and]

def durationOf (n : Int) (hpos : 0 ≤ n) (hmax : n ≤ i64Max) : Duration :=
  ⟨n, le_trans (by decide) hpos, hmax⟩

theorem ofSeconds_durationOf {n : Int} (hpos : 0 ≤ n) (hmax : n ≤ i64Max) :
    Duration.ofSeconds n = .ok (durationOf n hpos hmax) :=
  Duration.ofSeconds_eq_ok ⟨le_trans (by decide) hpos, hmax⟩

theorem ofSeconds_overflow {n : Int} (hlong : i64Max < n) : Duration.ofSeconds n = overflow := by
  rw [Duration.ofSeconds, dif_neg (fun h => absurd h.2 (not_le.mpr hlong))]

theorem scan_unit {c : Char} {number : List Char} {total : Duration} {seen : Bool}
    (hc : ¬ c.isDigit = true) (hdigits : ∀ d ∈ number, d.isDigit = true)
    (hunit : c ∈ units ∧ number ≠ [] ∧ (digitsValue number : Int) ≤ i64Max) :
    scanDurationChar raw units ⟨number, total, seen⟩ c
      = (Duration.ofSeconds (UnitPair.seconds ⟨number, c⟩) >>= fun length =>
          Duration.ofSeconds (total.wholeSeconds + length.wholeSeconds) >>= fun sum =>
            .ok ⟨[], sum, true⟩) := by
  have hcontains : units.contains c = true := contains_iff_mem.mpr hunit.1
  simp only [scanDurationChar, if_neg hc, parseDigits_eq hdigits, if_pos hunit.2,
    unitDuration_eq, hcontains, Bool.not_true, Bool.false_eq_true, if_false]
  rfl

theorem scan_refused {c : Char} {number : List Char} {total : Duration} {seen : Bool}
    (hc : ¬ c.isDigit = true) (hdigits : ∀ d ∈ number, d.isDigit = true)
    (hunit : ¬ (c ∈ units ∧ number ≠ [] ∧ (digitsValue number : Int) ≤ i64Max)) :
    ∃ message, scanDurationChar raw units ⟨number, total, seen⟩ c = fail message := by
  by_cases hmem : c ∈ units
  · have hcontains : units.contains c = true := contains_iff_mem.mpr hmem
    have hnumber : ¬ (number ≠ [] ∧ (digitsValue number : Int) ≤ i64Max) :=
      fun h => hunit ⟨hmem, h⟩
    simp only [scanDurationChar, if_neg hc, parseDigits_eq hdigits, if_neg hnumber, hcontains,
      Bool.not_true, Bool.false_eq_true, if_false]
    exact ⟨_, rfl⟩
  · have hcontains : units.contains c = false := by
      simpa using hmem
    simp only [scanDurationChar, if_neg hc, hcontains, Bool.not_false, if_true]
    exact ⟨_, rfl⟩

/-- What the loop over a part does: it panics where the lengths read exceed the range, and
otherwise refuses where the reader stops, and goes on with the sum where it comes to the end. -/
inductive Scanned (total : Duration) (seen : Bool) (read : List UnitPair × Option (List Char)) :
    Outcome DurationScan → Prop
  | panics
      (hlong : i64Max < total.wholeSeconds + pairsSeconds read.1) :
      Scanned total seen read overflow
  | refused
      (message : String)
      (hfits : total.wholeSeconds + pairsSeconds read.1 ≤ i64Max)
      (hstop : read.2 = none) :
      Scanned total seen read (fail message)
  | goes
      (number : List Char)
      (sum : Duration)
      (hsum : sum.wholeSeconds = total.wholeSeconds + pairsSeconds read.1)
      (hend : read.2 = some number) :
      Scanned total seen read (.ok ⟨number, sum, seen || !read.1.isEmpty⟩)

theorem Scanned.cons {p : UnitPair} {total sum : Duration} {seen : Bool}
    {read : List UnitPair × Option (List Char)} {outcome : Outcome DurationScan}
    (hsum : sum.wholeSeconds = total.wholeSeconds + p.seconds) (h : Scanned sum true read outcome) :
    Scanned total seen (p :: read.1, read.2) outcome := by
  cases h with
  | panics =>
    refine .panics ?_
    rw [pairsSeconds_cons]
    omega
  | refused message _ hstop =>
    refine .refused message ?_ hstop
    rw [pairsSeconds_cons]
    omega
  | goes number sum' _ hend =>
    have hseen : (true || !read.1.isEmpty) = (seen || !(p :: read.1).isEmpty) := by
      simp
    rw [hseen]
    refine .goes number sum' ?_ hend
    rw [pairsSeconds_cons]
    omega

/-- **The loop over a part, by what it reads.** -/
theorem scan_eq :
    ∀ (part number : List Char) (total : Duration) (seen : Bool), (∀ c ∈ number, c.isDigit = true) →
      0 ≤ total.wholeSeconds →
      Scanned total seen (unitsRead units part number)
        (part.foldlM (scanDurationChar raw units) ⟨number, total, seen⟩)
  | [], number, total, seen, _, _ => by
    have hgoes := @Scanned.goes total seen ([], some number) number total (by simp) rfl
    rw [isEmpty_nil, Bool.not_true, Bool.or_false] at hgoes
    exact hgoes
  | c :: rest, number, total, seen, hdigits, hpos => by
    rw [foldlM_cons]
    by_cases hc : c.isDigit = true
    · have hstep : scanDurationChar raw units ⟨number, total, seen⟩ c
          = .ok ⟨number ++ [c], total, seen⟩ := by
        simp [scanDurationChar, hc]
      have hread : unitsRead units (c :: rest) number = unitsRead units rest (number ++ [c]) := by
        simp [unitsRead, hc]
      rw [hstep, hread]
      refine scan_eq rest (number ++ [c]) total seen ?_ hpos
      intro d hd
      rcases mem_append.mp hd with hd | hd
      · exact hdigits d hd
      · rw [mem_singleton.mp hd]
        exact hc
    by_cases hunit : c ∈ units ∧ number ≠ [] ∧ (digitsValue number : Int) ≤ i64Max
    · have hread : unitsRead units (c :: rest) number
          = (⟨number, c⟩ :: (unitsRead units rest []).1, (unitsRead units rest []).2) := by
        simp only [unitsRead, if_neg hc, if_pos hunit]
      rw [hread, scan_unit hc hdigits hunit]
      have hlength := UnitPair.seconds_nonneg ⟨number, c⟩
      have hrest := pairsSeconds_nonneg (unitsRead units rest []).1
      by_cases hlong : total.wholeSeconds + UnitPair.seconds ⟨number, c⟩ ≤ i64Max
      · rw [ofSeconds_durationOf hlength (by omega)]
        have hsum : 0 ≤ total.wholeSeconds + UnitPair.seconds ⟨number, c⟩ := by omega
        have hadd := ofSeconds_durationOf hsum hlong
        have hscan := scan_eq rest [] (durationOf _ hsum hlong) true (by simp) hsum
        have hgoes := @Scanned.cons ⟨number, c⟩ total (durationOf _ hsum hlong) seen _ _ rfl hscan
        change Scanned _ _ _ ((Duration.ofSeconds _ >>= _) >>= _)
        rw [durationOf, hadd]
        exact hgoes
      · -- The length itself, or the sum with it, leaves the range of a duration.
        have hpanics : i64Max < total.wholeSeconds
            + pairsSeconds (⟨number, c⟩ :: (unitsRead units rest []).1) := by
          rw [pairsSeconds_cons]
          omega
        by_cases hfits : UnitPair.seconds ⟨number, c⟩ ≤ i64Max
        · rw [ofSeconds_durationOf hlength hfits]
          have hadd := ofSeconds_overflow (not_le.mp hlong)
          change Scanned _ _ _ ((Duration.ofSeconds _ >>= _) >>= _)
          rw [durationOf, hadd]
          exact .panics hpanics
        · rw [ofSeconds_overflow (not_le.mp hfits)]
          exact .panics hpanics
    · obtain ⟨message, hrefused⟩ :=
        @scan_refused raw units c number total seen hc hdigits hunit
      have hread : unitsRead units (c :: rest) number = ([], none) := by
        simp only [unitsRead, if_neg hc, if_neg hunit]
      rw [hread, hrefused]
      refine .refused message ?_ rfl
      rw [pairsSeconds_nil]
      have hmax := total.le_max
      omega

theorem digits_append_inj :
    ∀ {digits digits' : List Char} {c c' : Char} {rest rest' : List Char},
      (∀ d ∈ digits, d.isDigit = true) →
      (∀ d ∈ digits', d.isDigit = true) →
      c.isDigit = false →
      c'.isDigit = false →
      digits ++ c :: rest = digits' ++ c' :: rest' →
      digits = digits' ∧ c = c' ∧ rest = rest'
  | [], [], c, c', rest, rest', _, _, _, _, h => by
    obtain ⟨hc, hrest⟩ := cons_eq_cons.mp h
    exact ⟨rfl, hc, hrest⟩
  | [], d :: digits', c, c', rest, rest', _, hdigits', hc, _, h => by
    obtain ⟨rfl, _⟩ := cons_eq_cons.mp h
    rw [hdigits' c (by simp)] at hc
    cases hc
  | d :: digits, [], c, c', rest, rest', hdigits, _, _, hc', h => by
    obtain ⟨rfl, _⟩ := cons_eq_cons.mp h
    rw [hdigits d (by simp)] at hc'
    cases hc'
  | d :: digits, d' :: digits', c, c', rest, rest', hdigits, hdigits', hc, hc', h => by
    obtain ⟨rfl, htail⟩ := cons_eq_cons.mp h
    obtain ⟨heq, hrest⟩ := digits_append_inj
      (fun e he => hdigits e (by simp [he])) (fun e he => hdigits' e (by simp [he])) hc hc' htail
    exact ⟨congrArg _ heq, hrest⟩

/-- A text of pairs that begins with digits up to a character that is none begins with a pair
of these. -/
theorem pairsText_eq_cons {number rest left : List Char} {pairs : List UnitPair} {c : Char}
    (hunits : ∀ u ∈ units, u.isDigit = false) (hdigits : ∀ d ∈ number, d.isDigit = true)
    (hc : c.isDigit = false)
    (hpairs : ∀ p ∈ pairs, p.WellFormed units ∧ (digitsValue p.digits : Int) ≤ i64Max)
    (hleft : ∀ d ∈ left, d.isDigit = true) (htext : number ++ c :: rest = pairsText pairs ++ left) :
    ∃ later, pairs = ⟨number, c⟩ :: later ∧ rest = pairsText later ++ left := by
  cases pairs with
  | nil =>
    have hmem : c ∈ left := by
      rw [pairsText_nil, nil_append] at htext
      rw [← htext]
      simp
    rw [hleft c hmem] at hc
    cases hc
  | cons p later =>
    obtain ⟨⟨_, hp, hunit⟩, _⟩ := hpairs p (by simp)
    rw [pairsText_cons, append_assoc, cons_append] at htext
    obtain ⟨rfl, rfl, hrest⟩ := digits_append_inj hdigits hp hc (hunits _ hunit) htext
    exact ⟨later, rfl, hrest⟩

/-- **A part that is read to its end** is its pairs and the digits left. -/
theorem unitsRead_eq_some_iff (hunits : ∀ u ∈ units, u.isDigit = false) :
    ∀ {part number : List Char} {pairs : List UnitPair} {left : List Char},
      (∀ c ∈ number, c.isDigit = true) →
      (unitsRead units part number = (pairs, some left) ↔ number ++ part = pairsText pairs ++ left ∧
          (∀ p ∈ pairs, p.WellFormed units ∧ (digitsValue p.digits : Int) ≤ i64Max) ∧
          ∀ c ∈ left, c.isDigit = true)
  | [], number, pairs, left, hdigits => by
    simp only [unitsRead, append_nil, Prod.mk.injEq, some.injEq]
    constructor
    · rintro ⟨rfl, rfl⟩
      exact ⟨rfl, by simp, hdigits⟩
    · rintro ⟨htext, hpairs, _⟩
      cases pairs with
      | nil =>
        exact ⟨rfl, htext⟩
      | cons p =>
        have hmem : p.unit ∈ number := by
          rw [htext]
          simp
        have hdigit := hdigits _ hmem
        rw [hunits _ (hpairs p (by simp)).1.2.2] at hdigit
        cases hdigit
  | c :: rest, number, pairs, left, hdigits => by
    by_cases hc : c.isDigit = true
    · have hread : unitsRead units (c :: rest) number = unitsRead units rest (number ++ [c]) := by
        simp [unitsRead, hc]
      have hdigits' : ∀ d ∈ number ++ [c], d.isDigit = true := by
        intro d hd
        rcases mem_append.mp hd with hd | hd
        · exact hdigits d hd
        · rw [mem_singleton.mp hd]
          exact hc
      rw [hread, unitsRead_eq_some_iff hunits hdigits', append_assoc, singleton_append]
    have hnot : c.isDigit = false := Bool.eq_false_iff.mpr hc
    by_cases hunit : c ∈ units ∧ number ≠ [] ∧ (digitsValue number : Int) ≤ i64Max
    · have hread : unitsRead units (c :: rest) number
          = (⟨number, c⟩ :: (unitsRead units rest []).1, (unitsRead units rest []).2) := by
        simp only [unitsRead, if_neg hc, if_pos hunit]
      rw [hread]
      constructor
      · intro h
        obtain ⟨rfl, hleft⟩ := Prod.mk.injEq .. ▸ h
        obtain ⟨htext, hpairs, hdigit⟩ :=
          (unitsRead_eq_some_iff hunits (by simp)).mp (Prod.ext rfl hleft)
        refine ⟨?_, ?_, hdigit⟩
        · rw [nil_append] at htext
          rw [pairsText_cons, append_assoc, cons_append, ← htext]
        · intro p hp
          rcases mem_cons.mp hp with rfl | hp
          · exact ⟨⟨hunit.2.1, hdigits, hunit.1⟩, hunit.2.2⟩
          · exact hpairs p hp
      · rintro ⟨htext, hpairs, hdigit⟩
        obtain ⟨later, rfl, hrest⟩ := pairsText_eq_cons hunits hdigits hnot hpairs hdigit htext
        have hlater : unitsRead units rest [] = (later, some left) :=
          (unitsRead_eq_some_iff hunits (by simp)).mpr
            ⟨hrest, fun p hp => hpairs p (by simp [hp]), hdigit⟩
        rw [hlater]
    · have hread : unitsRead units (c :: rest) number = ([], none) := by
        simp only [unitsRead, if_neg hc, if_neg hunit]
      rw [hread]
      constructor
      · intro h
        cases h
      · rintro ⟨htext, hpairs, hdigit⟩
        obtain ⟨later, rfl, _⟩ := pairsText_eq_cons hunits hdigits hnot hpairs hdigit htext
        obtain ⟨⟨hne, _, hmem⟩, hvalue⟩ := hpairs ⟨number, c⟩ (by simp)
        exact absurd ⟨hmem, hne, hvalue⟩ hunit

end Reading

/-- What is read of the two parts: digits left of the first one begin the second one. -/
def partsRead (datePart timePart : List Char) : List UnitPair × Option (List Char) :=
  match unitsRead dateUnits datePart [] with
  | (date, none) => (date, none)
  | (date, some carried) =>
    let time := unitsRead timeUnits timePart carried
    (date ++ time.1, time.2)

/-- The date part and the time part of what stands after the `P`. -/
def intervalParts (rest : List Char) : List Char × List Char := (splitOnce 'T' rest).getD (rest, [])

def textRead (raw : List Char) : List UnitPair × Option (List Char) :=
  match stripPrefix ['P'] (toUppercase (trim raw)) with
  | none => ([], none)
  | some rest =>
    if namesMonthsOrYears rest then
      ([], none)
    else
      partsRead (intervalParts rest).1 (intervalParts rest).2

/-- What is read is an interval: nothing is left, and it is a minute at least. -/
def Accepts (read : List UnitPair × Option (List Char)) : Prop :=
  read.2 = some [] ∧ read.1 ≠ [] ∧ 60 ≤ pairsSeconds read.1

instance (read : List UnitPair × Option (List Char)) : Decidable (Accepts read) :=
  inferInstanceAs (Decidable (_ ∧ _ ∧ _))

inductive Parsed (read : List UnitPair × Option (List Char)) : Outcome Interval → Prop
  | panics
      (hlong : i64Max < pairsSeconds read.1) :
      Parsed read overflow
  | refused
      (message : String)
      (hfits : pairsSeconds read.1 ≤ i64Max)
      (hnot : ¬ Accepts read) :
      Parsed read (fail message)
  | accepted
      (gap : Interval)
      (hsum : gap.every.wholeSeconds = pairsSeconds read.1)
      (haccepts : Accepts read) :
      Parsed read (.ok gap)

theorem pairsSeconds_append (pairs later : List UnitPair) :
    pairsSeconds (pairs ++ later) = pairsSeconds pairs + pairsSeconds later := by
  simp [pairsSeconds]

def parseParts (raw datePart timePart : List Char) : Outcome Interval := do
  let scan ← datePart.foldlM (scanDurationChar raw dateUnits) ⟨[], Duration.zero, false⟩
  let scan ← timePart.foldlM (scanDurationChar raw timeUnits) scan
  if scan.number ≠ [] then
    fail s!"'{String.ofList raw}' ends with a number and no unit"
  else if !scan.seenAny then
    fail s!"'{String.ofList raw}' names no duration at all"
  else if h : 60 ≤ scan.total.wholeSeconds then
    .ok ⟨scan.total, h⟩
  else
    fail <| s!"'{String.ofList raw}' is shorter than a minute; " ++ "the shortest interval is PT1M"

theorem parsed_end {raw : List Char} {date : List UnitPair}
    {read : List UnitPair × Option (List Char)} {total : Duration} {outcome : Outcome DurationScan}
    (htotal : total.wholeSeconds = pairsSeconds date)
    (h : Scanned total (!date.isEmpty) read outcome) :
    Parsed (date ++ read.1, read.2) (outcome >>= fun scan =>
        if scan.number ≠ [] then
          fail s!"'{String.ofList raw}' ends with a number and no unit"
        else if !scan.seenAny then
          fail s!"'{String.ofList raw}' names no duration at all"
        else if h : 60 ≤ scan.total.wholeSeconds then
          .ok ⟨scan.total, h⟩
        else
          fail <| s!"'{String.ofList raw}' is shorter than a minute; " ++
            "the shortest interval is PT1M") := by
  cases h with
  | panics =>
    refine .panics ?_
    rw [pairsSeconds_append]
    omega
  | refused message _ hstop =>
    refine .refused message ?_ ?_
    · rw [pairsSeconds_append]
      omega
    · rintro ⟨hend, _⟩
      rw [hstop] at hend
      cases hend
  | goes number sum hsum hend =>
    have hfits : pairsSeconds (date ++ read.1) ≤ i64Max := by
      rw [pairsSeconds_append, ← htotal, ← hsum]
      exact sum.le_max
    have hlength : sum.wholeSeconds = pairsSeconds (date ++ read.1) := by
      rw [pairsSeconds_append, hsum, htotal]
    change Parsed _ (if number ≠ [] then _ else if !(!date.isEmpty || !read.1.isEmpty) then _
      else if h : 60 ≤ sum.wholeSeconds then _ else _)
    by_cases hnumber : number ≠ []
    · rw [if_pos hnumber]
      refine .refused _ hfits ?_
      rintro ⟨hnone, _⟩
      exact hnumber (some.inj (hend.symm.trans hnone))
    rw [if_neg hnumber]
    by_cases hseen : (!(!date.isEmpty || !read.1.isEmpty)) = true
    · rw [if_pos hseen]
      refine .refused _ hfits ?_
      rintro ⟨_, hne, _⟩
      refine hne (append_eq_nil_iff.mpr ?_)
      simpa using hseen
    rw [if_neg hseen]
    by_cases hminute : 60 ≤ sum.wholeSeconds
    · rw [dif_pos hminute]
      refine .accepted _ hlength ⟨?_, ?_, hlength ▸ hminute⟩
      · rw [hend, not_not.mp hnumber]
      · intro hnil
        obtain ⟨hdate, htime⟩ := append_eq_nil_iff.mp hnil
        simp [hdate, htime] at hseen
    · rw [dif_neg hminute]
      refine .refused _ hfits ?_
      rintro ⟨_, _, hlong⟩
      exact hminute (hlength ▸ hlong)

theorem parsed_parts (raw datePart timePart : List Char) :
    Parsed (partsRead datePart timePart) (parseParts raw datePart timePart) := by
  have hdate := @scan_eq raw dateUnits datePart [] Duration.zero false (by simp) (by decide)
  have hzero : Duration.zero.wholeSeconds = 0 := rfl
  unfold parseParts partsRead
  generalize hread : unitsRead dateUnits datePart [] = read at hdate
  generalize datePart.foldlM (scanDurationChar raw dateUnits) ⟨[], Duration.zero, false⟩
    = outcome at hdate
  obtain ⟨date, left⟩ := read
  cases hdate with
  | panics hlong =>
    cases left with
    | none =>
      exact .panics (by simpa [hzero] using hlong)
    | some carried =>
      refine .panics ?_
      have hrest := pairsSeconds_nonneg (unitsRead timeUnits timePart carried).1
      rw [pairsSeconds_append]
      simp only [hzero] at hlong
      omega
  | refused message hfits hstop =>
    obtain rfl : left = none := hstop
    refine .refused message (by simpa [hzero] using hfits) ?_
    rintro ⟨hend, _⟩
    cases hend
  | goes carried sum hsum hend =>
    obtain rfl : left = some carried := hend
    have hdigits : ∀ c ∈ carried, c.isDigit = true :=
      ((unitsRead_eq_some_iff dateUnits_not_digit (by simp)).mp hread).2.2
    have hlength : sum.wholeSeconds = pairsSeconds date := by
      rw [hsum, hzero, zero_add]
    have hpos : 0 ≤ sum.wholeSeconds := by
      rw [hlength]
      exact pairsSeconds_nonneg date
    have htime := @scan_eq raw timeUnits timePart carried sum (false || !date.isEmpty) hdigits hpos
    rw [Bool.false_or] at htime
    exact parsed_end hlength htime

/-- **What the parser does**, by what is read of the text. -/
theorem parsed_eq (raw : List Char) : Parsed (textRead raw) (parseIso8601Duration raw) := by
  have hzero : pairsSeconds [] ≤ i64Max := by decide
  have hnot : ¬ Accepts ([], none) := fun h => by cases h.1
  unfold parseIso8601Duration textRead
  cases hstrip : stripPrefix ['P'] (toUppercase (trim raw)) with
  | none =>
    simp only [hstrip]
    exact .refused _ hzero hnot
  | some rest =>
    simp only [hstrip]
    by_cases hmonths : namesMonthsOrYears rest = true
    · simp only [hmonths, if_true]
      exact .refused _ hzero hnot
    · simp only [hmonths]
      exact parsed_parts raw _ _

/-- The interval grammar: a `P`, pairs of days and weeks, and then perhaps a `T` and pairs of
hours, minutes and seconds, that add up to a length. -/
def IsInterval (raw : List Char) (seconds : Int) : Prop :=
  ∃ (date time : List UnitPair) (timed : Bool), (∀ p ∈ date, p.WellFormed dateUnits) ∧
      (∀ p ∈ time, p.WellFormed timeUnits) ∧
      (timed = false → time = []) ∧
      toUppercase (trim raw) =
        'P' :: (pairsText date ++ if timed then 'T' :: pairsText time else []) ∧
      seconds = pairsSeconds date + pairsSeconds time

/-- Digits stand right before the `T`, and with the `T` moved before them the text is an
interval of a minute at least whose length a duration can hold. -/
def CarriesNumber (raw : List Char) : Prop :=
  ∃ (date time : List UnitPair) (carried rest : List Char), (∀ p ∈ date, p.WellFormed dateUnits) ∧
      (∀ p ∈ time, p.WellFormed timeUnits) ∧
      carried ≠ [] ∧
      (∀ c ∈ carried, c.isDigit = true) ∧
      carried ++ rest = pairsText time ∧
      toUppercase (trim raw) = 'P' :: (pairsText date ++ carried ++ 'T' :: rest) ∧
      60 ≤ pairsSeconds date + pairsSeconds time ∧
      pairsSeconds date + pairsSeconds time ≤ i64Max

theorem mem_pairsText {units : List Char} {pairs : List UnitPair} {c : Char}
    (hpairs : ∀ p ∈ pairs, p.WellFormed units) (hc : c ∈ pairsText pairs) :
    c.isDigit = true ∨ c ∈ units := by
  obtain ⟨p, hp, hmem⟩ := mem_flatMap.mp hc
  obtain ⟨_, hdigits, hunit⟩ := hpairs p hp
  rcases mem_append.mp hmem with h | h
  · exact .inl (hdigits c h)
  · rw [mem_singleton.mp h]
    exact .inr hunit

theorem not_mem_pairsText {units : List Char} {pairs : List UnitPair} {c : Char}
    (hpairs : ∀ p ∈ pairs, p.WellFormed units) (hdigit : c.isDigit = false) (hunit : c ∉ units) :
    c ∉ pairsText pairs := by
  intro hc
  rcases mem_pairsText hpairs hc with h | h
  · rw [hdigit] at h
    cases h
  · exact hunit h

theorem intervalParts_of_mem {before after : List Char} (h : 'T' ∉ before) :
    intervalParts (before ++ 'T' :: after) = (before, after) := by
  have hall : ∀ c ∈ before, (c != 'T') = true := by
    intro c hc
    rw [bne_iff_ne]
    rintro rfl
    exact h hc
  simp [intervalParts, splitOnce, dropWhile_append_of_pos hall,
    takeWhile_append_of_pos hall]

theorem namesMonthsOrYears_parts {before after : List Char}
    (hbefore : ∀ c ∈ before, c.isDigit = true ∨ c ∈ dateUnits)
    (hafter : ∀ c ∈ after, c.isDigit = true ∨ c ∈ timeUnits) :
    namesMonthsOrYears (before ++ 'T' :: after) = false := by
  have hnot : ∀ {c : Char} {units part : List Char},
      (∀ d ∈ part, d.isDigit = true ∨ d ∈ units) → c.isDigit = false → c ∉ units → c ∉ part := by
    intro c units part hpart hdigit hunit hc
    rcases hpart c hc with h | h
    · rw [hdigit] at h
      cases h
    · exact hunit h
  have hY : (before ++ 'T' :: after).contains 'Y' = false := by
    have h₁ : 'Y' ∉ before := hnot hbefore (by decide) (by decide)
    have h₂ : 'Y' ∉ after := hnot hafter (by decide) (by decide)
    simp [h₁, h₂]
  have hM : 'M' ∉ before := hnot hbefore (by decide) (by decide)
  have hT : ∀ c ∈ before, (c == 'T') = false := by
    intro c hc
    rw [beq_eq_false_iff_ne]
    rintro rfl
    exact hnot hbefore (by decide) (by decide) hc
  have hT' : ∀ c ∈ after, (c == 'T') = false := by
    intro c hc
    rw [beq_eq_false_iff_ne]
    rintro rfl
    exact hnot hafter (by decide) (by decide) hc
  have hsplit : (before ++ 'T' :: after).splitOn 'T' = [before, after] := by
    rw [splitOn_eq_splitOnP, splitOnP_append_cons _ _ (by simp),
      splitOnP_eq_singleton hT, splitOnP_eq_singleton hT']
    rfl
  have hcontains : (before ++ 'T' :: after).contains 'M' = after.contains 'M' := by
    rw [Bool.eq_iff_iff]
    simp [hM]
  rw [namesMonthsOrYears, hY, hsplit, hcontains]
  simp

theorem eq_of_stripPrefix {expected text rest : List Char}
    (h : stripPrefix expected text = some rest) : text = expected ++ rest := by
  induction expected generalizing text with
  | nil =>
    exact some.inj h
  | cons _ _ ih =>
    cases text with
    | nil =>
      cases h
    | cons =>
      simp only [stripPrefix] at h
      split at h
      · next heq =>
        rw [heq, ih h]
        rfl
      · cases h

theorem wellFormed_fits {units : List Char} {pairs : List UnitPair}
    (hpairs : ∀ p ∈ pairs, p.WellFormed units) (hfits : pairsSeconds pairs ≤ i64Max) :
    ∀ p ∈ pairs, p.WellFormed units ∧ (digitsValue p.digits : Int) ≤ i64Max := by
  intro p hp
  have hvalue := p.value_le_seconds
  have hseconds := UnitPair.seconds_le hp
  exact ⟨hpairs p hp, by omega⟩

theorem CarriesNumber.accepted {raw : List Char} (h : CarriesNumber raw) :
    ∃ gap, parseIso8601Duration raw = .ok gap := by
  obtain ⟨date, time, carried, rest, hdate, htime, _, hdigits, hrest, htext, hminute, hmax⟩ := h
  have hdatePos := pairsSeconds_nonneg date
  have htimePos := pairsSeconds_nonneg time
  have hdateChars : ∀ c ∈ pairsText date ++ carried, c.isDigit = true ∨ c ∈ dateUnits := by
    intro c hc
    rcases mem_append.mp hc with h | h
    · exact mem_pairsText hdate h
    · exact .inl (hdigits c h)
  have htimeChars : ∀ c ∈ rest, c.isDigit = true ∨ c ∈ timeUnits := by
    intro c hc
    refine mem_pairsText htime ?_
    rw [← hrest]
    exact mem_append_right _ hc
  have hT : 'T' ∉ pairsText date ++ carried := by
    intro hc
    rcases hdateChars 'T' hc with h | h
    · cases h
    · exact absurd h (by decide)
  have hdateRead : unitsRead dateUnits (pairsText date ++ carried) [] = (date, some carried) :=
    (unitsRead_eq_some_iff dateUnits_not_digit (by simp)).mpr
      ⟨rfl, wellFormed_fits hdate (by omega), hdigits⟩
  have htimeRead : unitsRead timeUnits rest carried = (time, some []) :=
    (unitsRead_eq_some_iff timeUnits_not_digit hdigits).mpr
      ⟨by rw [hrest, append_nil], wellFormed_fits htime (by omega), by simp⟩
  have hread : textRead raw = (date ++ time, some []) := by
    have hstrip : stripPrefix ['P'] (toUppercase (trim raw))
        = some (pairsText date ++ carried ++ 'T' :: rest) := by
      rw [htext]
      rfl
    simp only [textRead, hstrip, namesMonthsOrYears_parts hdateChars htimeChars]
    rw [intervalParts_of_mem hT]
    simp only [partsRead, hdateRead, htimeRead]
    rfl
  have hsum : pairsSeconds (date ++ time) = pairsSeconds date + pairsSeconds time :=
    pairsSeconds_append date time
  have hparsed := parsed_eq raw
  rw [hread] at hparsed
  generalize hout : parseIso8601Duration raw = outcome at hparsed
  cases hparsed with
  | panics hlong =>
    rw [hsum] at hlong
    omega
  | refused _ _ hnot =>
    refine absurd ⟨rfl, ?_, by rw [hsum]; exact hminute⟩ hnot
    intro hnil
    obtain ⟨rfl, rfl⟩ := append_eq_nil_iff.mp hnil
    exact absurd hminute (by decide)
  | accepted gap =>
    exact ⟨gap, rfl⟩

theorem not_isDigit_getLast {units : List Char} {pairs : List UnitPair}
    (hunits : ∀ u ∈ units, u.isDigit = false) (hpairs : ∀ p ∈ pairs, p.WellFormed units) :
    ∀ c ∈ (pairsText pairs).getLast?, c.isDigit = false := by
  induction pairs with
  | nil =>
    simp
  | cons p pairs ih =>
    intro c hc
    have hrest := ih fun q hq => hpairs q (by simp [hq])
    rw [pairsText_cons, getLast?_append_cons, getLast?_cons] at hc
    obtain rfl := some.inj hc
    cases hlast : (pairsText pairs).getLast? with
    | none =>
      exact hunits _ (hpairs p (by simp)).2.2
    | some d =>
      exact hrest d hlast

theorem CarriesNumber.not_isInterval {raw : List Char} {seconds : Int} (h : CarriesNumber raw) :
    ¬ IsInterval raw seconds := by
  obtain ⟨date, time, carried, rest, hdate, _, hne, hdigits, _, htext, _⟩ := h
  rintro ⟨date', time', timed, hdate', _, _, htext', _⟩
  have hT : 'T' ∉ pairsText date ++ carried := by
    intro hc
    rcases mem_append.mp hc with hc | hc
    · exact not_mem_pairsText hdate (by decide) (by decide) hc
    · exact absurd (hdigits _ hc) (by decide)
  have hT' : 'T' ∉ pairsText date' := not_mem_pairsText hdate' (by decide) (by decide)
  have heq := List.cons.inj (htext.symm.trans htext')
  cases timed with
  | false =>
    rw [if_neg (by simp), append_nil] at heq
    refine hT' ?_
    rw [← heq.2]
    simp
  | true =>
    rw [if_pos rfl] at heq
    have hparts := congrArg intervalParts heq.2
    rw [intervalParts_of_mem hT, intervalParts_of_mem hT'] at hparts
    have hsame : pairsText date ++ carried = pairsText date' := (Prod.mk.inj hparts).1
    have hlast := not_isDigit_getLast dateUnits_not_digit hdate'
    rw [← hsame] at hlast
    have hmem : carried.getLast hne ∈ (pairsText date ++ carried).getLast? := by
      rw [getLast?_append_of_ne_nil _ hne, getLast?_eq_getLast_of_ne_nil hne]
      rfl
    have hfalse := hlast _ hmem
    rw [hdigits _ (getLast_mem hne)] at hfalse
    cases hfalse

theorem partsRead_eq_some {datePart timePart left : List Char}
    (h : (partsRead datePart timePart).2 = some left) :
    ∃ date time carried, partsRead datePart timePart = (date ++ time, some left) ∧
        (∀ p ∈ date, p.WellFormed dateUnits) ∧
        (∀ p ∈ time, p.WellFormed timeUnits) ∧
        (∀ c ∈ carried, c.isDigit = true) ∧
        datePart = pairsText date ++ carried ∧
        carried ++ timePart = pairsText time ++ left := by
  unfold partsRead at h ⊢
  cases hdate : unitsRead dateUnits datePart [] with
  | mk date carried =>
    rw [hdate] at h
    cases carried with
    | none =>
      cases h
    | some carried =>
      obtain ⟨hdateText, hdateWell, hdigits⟩ :=
        (unitsRead_eq_some_iff dateUnits_not_digit (by simp)).mp hdate
      have htime : unitsRead timeUnits timePart carried
          = ((unitsRead timeUnits timePart carried).1, some left) := Prod.ext rfl h
      obtain ⟨htimeText, htimeWell, _⟩ :=
        (unitsRead_eq_some_iff timeUnits_not_digit hdigits).mp htime
      refine ⟨date, _, carried, ?_, fun p hp => (hdateWell p hp).1,
        fun p hp => (htimeWell p hp).1, hdigits, hdateText, htimeText⟩
      exact Prod.ext rfl h

theorem pairs_of_digits {units carried : List Char} {pairs : List UnitPair}
    (hunits : ∀ u ∈ units, u.isDigit = false) (hpairs : ∀ p ∈ pairs, p.WellFormed units)
    (hdigits : ∀ c ∈ carried, c.isDigit = true) (h : carried = pairsText pairs) : pairs = [] := by
  cases pairs with
  | nil =>
    rfl
  | cons p =>
    have hmem : p.unit ∈ carried := by
      rw [h]
      simp
    have hdigit := hdigits _ hmem
    rw [hunits _ (hpairs p (by simp)).2.2] at hdigit
    cases hdigit

theorem isInterval_or_carries {raw : List Char} {gap : Interval}
    (h : parseIso8601Duration raw = .ok gap) :
    IsInterval raw gap.every.wholeSeconds ∨ CarriesNumber raw := by
  have hparsed := parsed_eq raw
  rw [h] at hparsed
  cases hparsed with
  | accepted _ hlength haccepts =>
    obtain ⟨hend, hne, hminute⟩ := haccepts
    have hmax := gap.every.le_max
    unfold textRead at hend hne hminute hlength
    cases hstrip : stripPrefix ['P'] (toUppercase (trim raw)) with
    | none =>
      simp only [hstrip] at hend
      cases hend
    | some rest =>
      simp only [hstrip] at hend hlength hminute
      have htext := eq_of_stripPrefix hstrip
      by_cases hmonths : namesMonthsOrYears rest = true
      · simp only [hmonths, if_true] at hend
        cases hend
      simp only [hmonths, Bool.false_eq_true, if_false] at hend hlength hminute
      obtain ⟨date, time, carried, hread, hdate, htime, hdigits, hdateText, htimeText⟩ :=
        partsRead_eq_some hend
      rw [hread, pairsSeconds_append] at hlength hminute
      rw [append_nil] at htimeText
      cases hsplit : splitOnce 'T' rest with
      | none =>
        simp only [intervalParts, hsplit, getD_none] at hdateText htimeText
        rw [append_nil] at htimeText
        obtain rfl := pairs_of_digits timeUnits_not_digit htime hdigits htimeText
        obtain rfl : carried = [] := htimeText
        refine .inl ⟨date, [], false, hdate, by simp, fun _ => rfl, ?_, hlength⟩
        rw [htext, hdateText]
        simp
      | some parts =>
        obtain ⟨before, after⟩ := parts
        simp only [intervalParts, hsplit, getD_some] at hdateText htimeText
        have hrest := eq_of_splitOnce hsplit
        by_cases hcarried : carried = []
        · subst hcarried
          refine .inl ⟨date, time, true, hdate, htime, nofun, ?_, hlength⟩
          rw [htext, hrest, hdateText]
          simp [← htimeText]
        · refine .inr ⟨date, time, carried, after, hdate, htime, hcarried, hdigits,
            htimeText, ?_, hminute, by omega⟩
          rw [htext, hrest, hdateText]
          rfl

/-- **What the parser accepts**: intervals only, where no digits before the `T` are read as the
number of the first unit after it. -/
theorem interval_grammar_iff (raw : List Char) :
    (∀ gap, parseIso8601Duration raw = .ok gap → IsInterval raw gap.every.wholeSeconds) ↔
    ¬ CarriesNumber raw := by
  constructor
  · intro hall hcarries
    obtain ⟨gap, hgap⟩ := hcarries.accepted
    exact hcarries.not_isInterval (hall gap hgap)
  · intro hnot gap hgap
    rcases isInterval_or_carries hgap with h | h
    · exact h
    · exact absurd h hnot

/-- `P1T5M` is read as a quarter of an hour. -/
theorem a_number_before_the_t_is_carried :
    ¬ ∀ raw gap, parseIso8601Duration raw = .ok gap →
      IsInterval raw gap.every.wholeSeconds := by
  intro hall
  have hcarries : CarriesNumber "P1T5M".toList := by
    refine ⟨[], [⟨['1', '5'], 'M'⟩], ['1'], ['5', 'M'], ?_, ?_, ?_, ?_, ?_, ?_, ?_, ?_⟩
    · simp
    · simp [UnitPair.WellFormed, timeUnits]
    · simp
    · simp
    · rfl
    · decide
    · decide
    · decide
  obtain ⟨gap, hgap⟩ := hcarries.accepted
  exact hcarries.not_isInterval (hall _ gap hgap)

def firstFiring (raw : List Char) (after : OffsetDateTime) : Outcome OffsetDateTime := do
  let gap ← parseIso8601Duration raw
  (Expression.interval gap).nextAfter after none

/-- The units that are read before the reader stops add up to a duration, and where they are an
interval the instant that far ahead is one. -/
def StaysInRange (raw : List Char) (after : OffsetDateTime) : Prop :=
  pairsSeconds (textRead raw).1 ≤ i64Max ∧ (Accepts (textRead raw) →
      after.nanos + pairsSeconds (textRead raw).1 * nanosPerSecond ≤ maxNanos)

instance (raw : List Char) (after : OffsetDateTime) : Decidable (StaysInRange raw after) :=
  inferInstanceAs (Decidable (_ ∧ (_ → _)))

/-- **When the first firing of an interval overflows.** -/
theorem first_firing_panics_iff (raw : List Char) (after : OffsetDateTime) :
    firstFiring raw after ≠ overflow ↔ StaysInRange raw after := by
  have hparsed := parsed_eq raw
  unfold firstFiring StaysInRange
  generalize parseIso8601Duration raw = outcome at hparsed
  cases hparsed with
  | panics =>
    constructor
    · intro h
      exact absurd rfl h
    · rintro ⟨hfits, _⟩
      omega
  | refused _ hfits hnot =>
    exact ⟨fun _ => ⟨hfits, fun h => absurd h hnot⟩, fun _ h => by cases h⟩
  | accepted gap hsum haccepts =>
    have hpos := gap.nanos_pos
    have hmin := after.min_le
    have hfits : pairsSeconds (textRead raw).1 ≤ i64Max := hsum ▸ gap.every.le_max
    have hnanos : gap.every.nanos = pairsSeconds (textRead raw).1 * nanosPerSecond := by
      rw [Duration.nanos, hsum]
    change after.add gap.every ≠ overflow ↔ _
    rw [OffsetDateTime.add, OffsetDateTime.ofNanos, hnanos]
    rw [hnanos] at hpos
    constructor
    · intro h
      refine ⟨hfits, fun _ => ?_⟩
      by_contra hlong
      refine h (dif_neg ?_)
      rintro ⟨_, hmax⟩
      exact hlong hmax
    · rintro ⟨_, hrange⟩
      rw [dif_pos ⟨by omega, hrange haccepts⟩]
      intro h
      cases h

/-- A count of weeks that no duration holds. -/
theorem intervals_overflow :
    ¬ ∀ (raw : List Char) (after : OffsetDateTime),
      1970 ≤ after.date.year → after.date.year ≤ 2100 → firstFiring raw after ≠ overflow := by
  intro hall
  have hweeks := hall "P9223372036854775807W".toList epoch (by decide) (by decide)
  exact hweeks (by decide +kernel)

end Scheduler
end StudioWeb
