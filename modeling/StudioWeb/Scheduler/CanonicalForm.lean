import StudioWeb.Scheduler.ScheduleService
import Mathlib.Data.List.DropRight

/-!
# The stored form of an expression means what was validated

A patch and a create validate an expression and store its canonical form.  The
tick parses that form again.  A cron is stored trimmed, which its parser does
not see; an interval is stored as the units of its length, each at most once,
and the units add up to the length again.
-/

namespace StudioWeb
namespace Scheduler

open Rust CivilTime List

theorem splitWhitespace_cons {c : Char} (h : isWhitespace c = true) (text : List Char) :
    splitWhitespace (c :: text) = splitWhitespace text := by
  simp [splitWhitespace, splitOnP_cons_eq_if_modifyHead, h]

theorem splitWhitespace_concat {c : Char} (h : isWhitespace c = true) (text : List Char) :
    splitWhitespace (text ++ [c]) = splitWhitespace text := by
  simp [splitWhitespace, splitOnP_append_cons text [] h]

theorem splitWhitespace_trimStart (text : List Char) :
    splitWhitespace (trimStart text) = splitWhitespace text := by
  induction text with
  | nil =>
    rfl
  | cons c _ ih =>
    by_cases h : isWhitespace c = true
    · rw [splitWhitespace_cons h, ← ih]
      simp [trimStart, h]
    · simp [trimStart, h]

theorem splitWhitespace_trimEnd (text : List Char) :
    splitWhitespace (trimEnd text) = splitWhitespace text := by
  induction text using List.reverseRecOn with
  | nil =>
    rfl
  | append_singleton text c ih =>
    change splitWhitespace ((text ++ [c]).rdropWhile isWhitespace) = _
    by_cases h : isWhitespace c = true
    · rw [rdropWhile_concat_pos _ _ _ h, splitWhitespace_concat h]
      exact ih
    · rw [rdropWhile_concat_neg _ _ _ h]

theorem splitWhitespace_trim (text : List Char) :
    splitWhitespace (trim text) = splitWhitespace text := by
  rw [trim, splitWhitespace_trimEnd, splitWhitespace_trimStart]

theorem Cron.parse_trim {text : List Char} {fields : Cron} (h : Cron.parse text = .ok fields) :
    Cron.parse (trim text) = .ok fields := by
  unfold Cron.parse at h ⊢
  rw [splitWhitespace_trim]
  split at h
  · exact h
  · simp [fail] at h

theorem eq_of_splitOnce {delimiter : Char} {text before behind : List Char}
    (h : splitOnce delimiter text = some (before, behind)) :
    text = before ++ delimiter :: behind := by
  unfold splitOnce at h
  split at h
  · cases h
  · next c _ hdrop =>
    cases h
    have hhead : (c != delimiter) = false := by
      have hfound := head_dropWhile_not (fun c => c != delimiter)
        (l := text) (by rw [hdrop]; exact cons_ne_nil c behind)
      simpa [hdrop] using hfound
    have hc : c = delimiter := by
      simpa using hhead
    have hparts := takeWhile_append_dropWhile (p := fun c => c != delimiter) (l := text)
    rw [hdrop, hc] at hparts
    exact hparts.symm

def durationAlphabet : List Char :=
  ['P', 'T', 'D', 'H', 'M', 'S'] ++ ['0', '1', '2', '3', '4', '5', '6', '7', '8', '9']

theorem isDigit_mem_durationAlphabet {c : Char} (h : c.isDigit = true) : c ∈ durationAlphabet := by
  have hrange : 48 ≤ c.toNat ∧ c.toNat ≤ 57 := by
    simpa [Char.isDigit, UInt32.le_iff_toNat_le] using h
  have hc : c = Char.ofNat c.toNat := (Char.ofNat_toNat c).symm
  have hall : ∀ n < 58, 48 ≤ n → Char.ofNat n ∈ durationAlphabet := by
    decide
  rw [hc]
  exact hall c.toNat (by omega) hrange.1

theorem durationAlphabet_upper :
    ∀ c ∈ durationAlphabet, uppercaseChar c = [c] ∧ isWhitespace c = false := by
  have hall :
      durationAlphabet.all (fun c =>
        decide (uppercaseChar c = [c] ∧ isWhitespace c = false)) = true := by
    decide
  intro c hc
  exact of_decide_eq_true (all_eq_true.mp hall c hc)

theorem toUppercase_of_alphabet {text : List Char} (h : ∀ c ∈ text, c ∈ durationAlphabet) :
    toUppercase text = text := by
  induction text with
  | nil =>
    rfl
  | cons c _ ih =>
    have hc := (durationAlphabet_upper c (h c (by simp))).1
    have hrest := ih (fun d hd => h d (by simp [hd]))
    rw [toUppercase] at hrest ⊢
    rw [flatMap_cons, hc, hrest]
    rfl

theorem trim_of_no_blank {text : List Char} (h : ∀ c ∈ text, isWhitespace c = false) :
    trim text = text := by
  have hstart : trimStart text = text := by
    cases text with
    | nil => rfl
    | cons c =>
      simp [trimStart, h c (by simp)]
  rw [trim, hstart]
  change text.rdropWhile isWhitespace = text
  rw [rdropWhile_eq_self_iff]
  intro hne
  simp [h _ (getLast_mem hne)]

section DurationScan

variable {raw units : List Char}

theorem scan_digits :
    ∀ (digits : List Char) (scan : DurationScan), (∀ c ∈ digits, c.isDigit = true) →
      digits.foldlM (scanDurationChar raw units) scan =
        .ok { scan with number := scan.number ++ digits }
  | [], scan, _ => by
    rw [append_nil]
    rfl
  | c :: digits, scan, h => by
    have hc : scanDurationChar raw units scan c =
        .ok { scan with number := scan.number ++ [c] } := by
      simp [scanDurationChar, h c (by simp)]
    rw [foldlM_cons, hc]
    refine (scan_digits digits _ (fun d hd => h d (by simp [hd]))).trans ?_
    simp

def unitSeconds (unit : Char) : Int :=
  match unit with
  | 'W' => 604800
  | 'D' => 86400
  | 'H' => 3600
  | 'M' => 60
  | _ => 1

theorem unitSeconds_second : unitSeconds 'S' = 1 := by
  rfl

theorem unitDuration_eq (unit : Char) (value : Int) :
    unitDuration unit value = Duration.ofSeconds (value * unitSeconds unit) := by
  unfold unitDuration unitSeconds
  split <;>
    simp [Duration.weeks, Duration.days, Duration.hours, Duration.minutes, Duration.seconds]

theorem Duration.ofSeconds_eq_ok {n : Int} (h : i64Min ≤ n ∧ n ≤ i64Max) :
    Duration.ofSeconds n = .ok ⟨n, h.1, h.2⟩ := by
  simp [Duration.ofSeconds, h]

/-- A number of units at the end of a part, nothing when it is zero. -/
def unitText (n : Nat) (unit : Char) : List Char :=
  if 0 < n then decimal n ++ [unit] else []

variable {n : Nat}

theorem scan_unitText {unit : Char} {total : Duration} {seen : Bool}
    (hunit : unit.isDigit = false ∧ unit ∈ units) (hpos : 0 ≤ total.wholeSeconds)
    (hseconds : 1 ≤ unitSeconds unit) (hfits : total.wholeSeconds + n * unitSeconds unit ≤ i64Max) :
    ∃ sum : Duration, (unitText n unit).foldlM (scanDurationChar raw units) ⟨[], total, seen⟩ =
        .ok ⟨[], sum, seen || decide (0 < n)⟩ ∧
      sum.wholeSeconds = total.wholeSeconds + n * unitSeconds unit := by
  by_cases hn : 0 < n
  · have hmul : (n : Int) ≤ n * unitSeconds unit := by
      calc (n : Int) = n * 1 := (mul_one _).symm
        _ ≤ n * unitSeconds unit :=
            mul_le_mul_of_nonneg_left hseconds (by omega)
    have hlen : i64Min ≤ n * unitSeconds unit ∧ n * unitSeconds unit ≤ i64Max := by
      have : i64Min ≤ 0 := by decide
      omega
    have hsum : i64Min ≤ total.wholeSeconds + n * unitSeconds unit ∧
        total.wholeSeconds + n * unitSeconds unit ≤ i64Max := by
      have : i64Min ≤ 0 := by decide
      omega
    refine ⟨⟨total.wholeSeconds + n * unitSeconds unit, hsum.1, hsum.2⟩, ?_, rfl⟩
    have hdigits : ∀ c ∈ decimal n, c.isDigit = true := fun c hc =>
      Nat.isDigit_of_mem_toDigits (by decide) (by decide) hc
    have hparse : parseDigits i64Max.toNat (decimal n) = some n := by
      have hvalue : digitsValue (decimal n) = n := Nat.ofDigitChars_ten_toDigits
      have hmax : n ≤ i64Max.toNat := by
        have : (0 : Int) ≤ i64Max := by decide
        omega
      have hall : (decimal n).all Char.isDigit = true := all_eq_true.mpr hdigits
      simp only [parseDigits, hvalue]
      rw [if_pos ⟨Nat.toDigits_ne_nil, hall, hmax⟩]
    have hlast :
        scanDurationChar raw units ⟨decimal n, total, seen⟩ unit =
          .ok ⟨[], ⟨total.wholeSeconds + n * unitSeconds unit, hsum.1, hsum.2⟩,
            true⟩ := by
      simp only [scanDurationChar, hunit.1, hparse, unitDuration_eq]
      rw [Duration.ofSeconds_eq_ok hlen]
      simp only [contains_iff_mem.mpr hunit.2, Bool.not_true, Bool.false_eq_true, if_false]
      change (Duration.ofSeconds (total.wholeSeconds + n * unitSeconds unit) >>= _) = _
      rw [Duration.ofSeconds_eq_ok hsum]
      rfl
    rw [unitText, if_pos hn, foldlM_append, scan_digits _ _ hdigits]
    simp only [nil_append, foldlM_cons, foldlM_nil, bind_pure]
    exact hlast.trans (by simp [hn])
  · have hzero : n = 0 := by omega
    subst hzero
    refine ⟨total, ?_, by simp⟩
    simp [unitText]
    rfl

theorem mem_unitText {unit c : Char} (h : c ∈ unitText n unit) :
    c.isDigit = true ∨ c = unit := by
  unfold unitText at h
  split_ifs at h with hn
  · rcases mem_append.mp h with hdigit | hunit
    · exact Or.inl (Nat.isDigit_of_mem_toDigits (by decide) (by decide) hdigit)
    · exact Or.inr (mem_singleton.mp hunit)
  · exact absurd h not_mem_nil

theorem not_mem_unitText {unit c : Char} (hdigit : c.isDigit = false) (hne : c ≠ unit) :
    c ∉ unitText n unit := by
  intro h
  rcases mem_unitText h with hc | hc
  · rw [hdigit] at hc
    cases hc
  · exact hne hc

theorem unitText_ne_nil (h : 0 < n) (unit : Char) : unitText n unit ≠ [] := by
  simp [unitText, h]

/-- The time part of a formatted duration, without its `T`. -/
def timeText (hours minutes seconds : Nat) : List Char :=
  unitText hours 'H' ++ unitText minutes 'M' ++ unitText seconds 'S'

theorem mem_timeText {hours minutes seconds : Nat} {c : Char}
    (h : c ∈ timeText hours minutes seconds) : c.isDigit = true ∨ c = 'H' ∨ c = 'M' ∨ c = 'S' := by
  simp only [timeText, mem_append] at h
  rcases h with (h | h) | h
  · exact (mem_unitText h).imp_right Or.inl
  · exact (mem_unitText h).imp_right (fun hc => Or.inr (Or.inl hc))
  · exact (mem_unitText h).imp_right (fun hc => Or.inr (Or.inr hc))

/-- What stands after the `P` of a formatted duration. -/
def durationBody (days hours minutes seconds : Nat) : List Char :=
  unitText days 'D' ++
    if 0 < hours ∨ 0 < minutes ∨ 0 < seconds then
      'T' :: timeText hours minutes seconds
    else
      []

theorem formatIso8601Duration_eq {d : Duration} (h : 0 < d.wholeSeconds) :
    let total := d.wholeSeconds.toNat
    formatIso8601Duration d = 'P' :: durationBody (total / 86400) (total % 86400 / 3600)
        (total % 3600 / 60) (total % 60) := by
  intro total
  have hmax : (max 0 d.wholeSeconds).toNat = total := by
    rw [max_eq_right h.le]
  have hne :
      'P' :: durationBody (total / 86400) (total % 86400 / 3600)
        (total % 3600 / 60) (total % 60) ≠ ['P'] := by
    simp only [ne_eq, List.cons.injEq, true_and, durationBody]
    intro hempty
    obtain ⟨hdays, htime⟩ := append_eq_nil_iff.mp hempty
    split_ifs at htime with hpos
    rcases Nat.eq_zero_or_pos (total / 86400) with hzero | hposDays
    · omega
    · exact unitText_ne_nil hposDays 'D' hdays
  simp only [formatIso8601Duration, hmax]
  exact if_neg hne

theorem durationBody_alphabet (days hours minutes seconds : Nat) :
    ∀ c ∈ 'P' :: durationBody days hours minutes seconds,
      c ∈ durationAlphabet := by
  intro c hc
  have hclass :
      c.isDigit = true ∨ c ∈ (['P', 'T', 'D', 'H', 'M', 'S'] : List Char) := by
    simp only [durationBody, mem_cons, mem_append] at hc
    rcases hc with hc | hc | hc
    · simp [hc]
    · rcases mem_unitText hc with h | h
      · exact Or.inl h
      · simp [h]
    · split_ifs at hc
      · rcases mem_cons.mp hc with hc | hc
        · simp [hc]
        · rcases mem_timeText hc with h | h | h | h
          · exact Or.inl h
          · simp [h]
          · simp [h]
          · simp [h]
      · exact absurd hc not_mem_nil
  rcases hclass with h | h
  · exact isDigit_mem_durationAlphabet h
  · exact mem_append_left _ h

theorem splitOnce_durationBody (days hours minutes seconds : Nat) :
    (splitOnce 'T' (durationBody days hours minutes seconds)).getD
        (durationBody days hours minutes seconds, []) =
      (unitText days 'D', timeText hours minutes seconds) := by
  have hdate : ∀ c ∈ unitText days 'D', (c != 'T') = true := by
    intro c hc
    rw [bne_iff_ne]
    rintro rfl
    exact not_mem_unitText (by decide) (by decide) hc
  by_cases hpos : 0 < hours ∨ 0 < minutes ∨ 0 < seconds
  · simp [splitOnce, durationBody, hpos, dropWhile_append_of_pos hdate,
      takeWhile_append_of_pos hdate]
  · obtain ⟨rfl, rfl, rfl⟩ : hours = 0 ∧ minutes = 0 ∧ seconds = 0 := by omega
    have hdrop : (unitText days 'D').dropWhile (fun c => c != 'T') = [] :=
      dropWhile_eq_nil_iff.mpr hdate
    have htime : timeText 0 0 0 = [] := by
      simp [timeText, unitText]
    simp [splitOnce, durationBody, hdrop, htime]

theorem namesMonthsOrYears_durationBody (days hours minutes seconds : Nat) :
    namesMonthsOrYears (durationBody days hours minutes seconds) = false := by
  have hD : ∀ c : Char, c.isDigit = false → c ≠ 'D' → c ∉ unitText days 'D' :=
    fun c hdigit hne => not_mem_unitText hdigit hne
  have hY : 'Y' ∉ durationBody days hours minutes seconds := by
    intro h
    simp only [durationBody, mem_append] at h
    rcases h with h | h
    · exact hD 'Y' (by decide) (by decide) h
    · split_ifs at h
      · rcases mem_cons.mp h with h | h
        · exact absurd h (by decide)
        · rcases mem_timeText h with h | h | h | h
          · exact absurd h (by decide)
          · exact absurd h (by decide)
          · exact absurd h (by decide)
          · exact absurd h (by decide)
      · exact absurd h not_mem_nil
  have hM : 'M' ∉ unitText days 'D' := hD 'M' (by decide) (by decide)
  have hT : ∀ c ∈ unitText days 'D', (c == 'T') = false := by
    intro c hc
    rw [beq_eq_false_iff_ne]
    rintro rfl
    exact hD 'T' (by decide) (by decide) hc
  have hT' : ∀ c ∈ timeText hours minutes seconds, (c == 'T') = false := by
    intro c hc
    rw [beq_eq_false_iff_ne]
    rintro rfl
    rcases mem_timeText hc with h | h | h | h
    · exact absurd h (by decide)
    · exact absurd h (by decide)
    · exact absurd h (by decide)
    · exact absurd h (by decide)
  have hYb : (durationBody days hours minutes seconds).contains 'Y' = false := by
    simpa using hY
  rw [namesMonthsOrYears, hYb, Bool.false_or]
  by_cases hpos : 0 < hours ∨ 0 < minutes ∨ 0 < seconds
  · have hsplit :
        (durationBody days hours minutes seconds).splitOn 'T' =
          [unitText days 'D', timeText hours minutes seconds] := by
      rw [durationBody, if_pos hpos, splitOn_eq_splitOnP,
        splitOnP_append_cons _ _ (by simp), splitOnP_eq_singleton hT,
        splitOnP_eq_singleton hT']
      rfl
    have hcontains :
        (durationBody days hours minutes seconds).contains 'M' =
          (timeText hours minutes seconds).contains 'M' := by
      rw [durationBody, if_pos hpos, Bool.eq_iff_iff]
      simp [hM]
    rw [hsplit, hcontains]
    simp
  · have hnone : (durationBody days hours minutes seconds).contains 'M' = false := by
      rw [durationBody, if_neg hpos, append_nil]
      simpa using hM
    rw [hnone, Bool.false_and]

theorem scan_timeText {hours minutes seconds : Nat} {total : Duration} {seen : Bool}
    (hpos : 0 ≤ total.wholeSeconds)
    (hfits :
      total.wholeSeconds + hours * 3600 + minutes * 60 + seconds ≤ i64Max) :
    ∃ sum : Duration, (timeText hours minutes seconds).foldlM
          (scanDurationChar raw ['H', 'M', 'S']) ⟨[], total, seen⟩ =
        .ok ⟨[], sum, seen || decide (0 < hours) || decide (0 < minutes) ||
          decide (0 < seconds)⟩ ∧
      sum.wholeSeconds =
        total.wholeSeconds + hours * 3600 + minutes * 60 + seconds := by
  obtain ⟨sum₁, hscan₁, hsum₁⟩ :=
    @scan_unitText raw ['H', 'M', 'S'] hours 'H' total seen
      (by decide) hpos (by decide) (by simp only [unitSeconds]; omega)
  simp only [unitSeconds] at hsum₁
  obtain ⟨sum₂, hscan₂, hsum₂⟩ :=
    @scan_unitText raw ['H', 'M', 'S'] minutes 'M' sum₁ (seen || decide (0 < hours))
      (by decide) (by omega) (by decide) (by simp only [unitSeconds]; omega)
  simp only [unitSeconds] at hsum₂
  obtain ⟨sum₃, hscan₃, hsum₃⟩ :=
    @scan_unitText raw ['H', 'M', 'S'] seconds 'S' sum₂
      (seen || decide (0 < hours) || decide (0 < minutes))
      (by decide) (by omega) (by decide) (by rw [unitSeconds_second]; omega)
  rw [unitSeconds_second] at hsum₃
  refine ⟨sum₃, ?_, by omega⟩
  rw [timeText, foldlM_append, foldlM_append, hscan₁]
  refine (congrArg (· >>= _) hscan₂).trans ?_
  exact hscan₃

/-- **The format writes each unit once and the parser adds them up.** -/
theorem parse_formatIso8601Duration (gap : Interval) :
    parseIso8601Duration (formatIso8601Duration gap.every) = .ok gap := by
  have hminute := gap.minute_le
  have hmax := gap.every.le_max
  rw [formatIso8601Duration_eq (by omega)]
  generalize hd : gap.every.wholeSeconds.toNat / 86400 = days
  generalize hh : gap.every.wholeSeconds.toNat % 86400 / 3600 = hours
  generalize hm : gap.every.wholeSeconds.toNat % 3600 / 60 = minutes
  generalize hs : gap.every.wholeSeconds.toNat % 60 = seconds
  have hparts :
      gap.every.wholeSeconds =
        days * 86400 + hours * 3600 + minutes * 60 + seconds := by
    omega
  have halphabet := durationBody_alphabet days hours minutes seconds
  have htrim := trim_of_no_blank (fun c hc => (durationAlphabet_upper c (halphabet c hc)).2)
  have hupper := toUppercase_of_alphabet halphabet
  obtain ⟨dateSum, hdate, hdateSum⟩ :=
    @scan_unitText ('P' :: durationBody days hours minutes seconds) ['D', 'W']
      days 'D' Duration.zero false (by decide) (by decide) (by decide)
      (by simp only [unitSeconds, Duration.zero]; omega)
  simp only [unitSeconds, Duration.zero] at hdateSum
  obtain ⟨sum, htime, hsum⟩ :=
    @scan_timeText ('P' :: durationBody days hours minutes seconds)
      hours minutes seconds dateSum (false || decide (0 < days))
      (by omega) (by omega)
  have hlong : 60 ≤ sum.wholeSeconds := by omega
  have hseen : (false || decide (0 < days) || decide (0 < hours) ||
      decide (0 < minutes) || decide (0 < seconds)) = true := by
    simp only [Bool.false_or, Bool.or_eq_true, decide_eq_true_eq]
    omega
  have hgap : (⟨sum, hlong⟩ : Interval) = gap := by
    cases gap with
    | mk every =>
      cases every
      cases sum
      simp only [Interval.mk.injEq, Duration.mk.injEq]
      simp only at hparts hsum hdateSum
      omega
  simp only [parseIso8601Duration, htrim, hupper, stripPrefix, if_true,
    namesMonthsOrYears_durationBody, splitOnce_durationBody]
  refine bind_eq_ok_iff.mpr ⟨_, hdate, ?_⟩
  refine bind_eq_ok_iff.mpr ⟨_, htime, ?_⟩
  simp only [hseen]
  simp [hlong, hgap]

/-- What a text is parsed to, its written form is parsed to; a duration of a minute or more is
parsed back from its form; and the stored form is written again as it is. -/
theorem interval_form_round_trips :
    (∀ (raw : List Char) (gap : Interval), parseIso8601Duration raw = .ok gap →
      parseIso8601Duration (formatIso8601Duration gap.every) = .ok gap) ∧
    (∀ (d : Duration) (hminute : 60 ≤ d.wholeSeconds),
      parseIso8601Duration (formatIso8601Duration d) = .ok ⟨d, hminute⟩) ∧
    ∀ (raw : List Char) (gap gap' : Interval), parseIso8601Duration raw = .ok gap →
      parseIso8601Duration (formatIso8601Duration gap.every) = .ok gap' →
      formatIso8601Duration gap'.every = formatIso8601Duration gap.every := by
  refine ⟨fun _ gap _ => parse_formatIso8601Duration gap,
    fun d hminute => parse_formatIso8601Duration ⟨d, hminute⟩, ?_⟩
  intro raw gap gap' _ hagain
  obtain rfl : gap = gap' := Except.ok.inj ((parse_formatIso8601Duration gap).symm.trans hagain)
  rfl

end DurationScan

/-- **The stored form of an expression parses to what was validated.** -/
theorem parse_canonical {kind value : String} {expression : Expression}
    (h : Expression.parse kind value = .ok expression) :
    Expression.parse kind (canonical expression value) = .ok expression := by
  unfold Expression.parse at h ⊢
  split at h
  · obtain ⟨fields, hfields, hexpr⟩ := bind_eq_ok_iff.mp h
    cases hexpr
    have htrim := Cron.parse_trim hfields
    simp only [canonical, String.toList_ofList]
    exact bind_eq_ok_iff.mpr ⟨fields, htrim, rfl⟩
  · obtain ⟨gap, _, hexpr⟩ := bind_eq_ok_iff.mp h
    cases hexpr
    simp only [canonical, String.toList_ofList]
    exact bind_eq_ok_iff.mpr ⟨gap, parse_formatIso8601Duration gap, rfl⟩
  · simp [fail] at h

end Scheduler
end StudioWeb
