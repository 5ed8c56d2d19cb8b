import StudioWeb.Library.CivilTime
import Mathlib.Tactic.IntervalCases

/-!
# The months of the proleptic Gregorian calendar

A year is counted from 1 March here, so that the leap day is its last: a day of an era of 400
years is some centuries, some leap cycles, some years and some days of a year.
-/

namespace StudioWeb
namespace CivilTime

structure EraDay where
  centuries : Nat
  cycles : Nat
  years : Nat
  days : Nat
  centuries_lt : centuries < 4
  cycles_lt : cycles < 25
  years_lt : years < 4
  days_le : days ≤ 365
  leap : days = 365 → years = 3 ∧ (cycles = 24 → centuries = 3)

namespace EraDay

def dayOfEra (d : EraDay) : Nat := 36524 * d.centuries + 1461 * d.cycles + 365 * d.years + d.days

def yearOfEra (d : EraDay) : Nat := 100 * d.centuries + 4 * d.cycles + d.years

theorem dayOfEra_lt (d : EraDay) : d.dayOfEra < 146097 := by
  obtain ⟨c, q, y, n, hc, hq, hy, hn, hleap⟩ := d
  simp only [dayOfEra]
  omega

theorem exists_parts {dayOfEra : Nat} (h : dayOfEra < 146097) :
    ∃ d : EraDay, d.dayOfEra = dayOfEra := by
  have hc : min (dayOfEra / 36524) 3 < 4 := by omega
  obtain ⟨c, hcent⟩ : ∃ c, c = min (dayOfEra / 36524) 3 := ⟨_, rfl⟩
  obtain ⟨q, hcycle⟩ : ∃ q, q = min ((dayOfEra - 36524 * c) / 1461) 24 := ⟨_, rfl⟩
  obtain ⟨y, hyear⟩ : ∃ y, y = min ((dayOfEra - 36524 * c - 1461 * q) / 365) 3 := ⟨_, rfl⟩
  refine ⟨⟨c, q, y, dayOfEra - 36524 * c - 1461 * q - 365 * y, ?_, ?_, ?_, ?_, ?_⟩, ?_⟩
  all_goals first | omega | (simp only [EraDay.dayOfEra]; omega)

variable (d : EraDay)

theorem div_1460 :
    d.dayOfEra / 1460 = 25 * d.centuries + d.cycles +
      (24 * d.centuries + d.cycles + 365 * d.years + d.days) / 1460 := by
  simp only [dayOfEra]
  omega

theorem div_36524 :
    d.dayOfEra / 36524 = d.centuries +
      (if d.days = 365 ∧ d.cycles = 24 then 1 else 0) := by
  obtain ⟨c, q, y, n, hc, hq, hy, hn, hleap⟩ := d
  simp only [dayOfEra]
  split
  · omega
  · omega

theorem div_146096 :
    d.dayOfEra / 146096 = (if d.days = 365 ∧ d.cycles = 24 then 1 else 0) := by
  obtain ⟨c, q, y, n, hc, hq, hy, hn, hleap⟩ := d
  simp only [dayOfEra]
  split
  · omega
  · omega

theorem year_read :
    (d.dayOfEra - d.dayOfEra / 1460 + d.dayOfEra / 36524 - d.dayOfEra / 146096) / 365 =
      d.yearOfEra := by
  have hcycles := d.div_1460
  have hcenturies := d.div_36524
  have heras := d.div_146096
  obtain ⟨c, q, y, n, hc, hq, hy, hn, hleap⟩ := d
  simp only [dayOfEra, yearOfEra] at *
  rw [hcycles, hcenturies, heras]
  split
  · omega
  · omega

theorem days_read :
    d.dayOfEra - (365 * d.yearOfEra + d.yearOfEra / 4 - d.yearOfEra / 100) = d.days := by
  obtain ⟨c, q, y, n, hc, hq, hy, hn, hleap⟩ := d
  have hfour : (100 * c + 4 * q + y) / 4 = 25 * c + q := by omega
  have hhundred : (100 * c + 4 * q + y) / 100 = c := by omega
  simp only [dayOfEra, yearOfEra]
  rw [hfour, hhundred]
  omega

end EraDay

def monthOfYear (days : Nat) : Nat :=
  if (5 * days + 2) / 153 < 10 then (5 * days + 2) / 153 + 3 else (5 * days + 2) / 153 - 9

def dayOfMonth (days : Nat) : Nat := days - (153 * ((5 * days + 2) / 153) + 2) / 5 + 1

def dayOf (era : Int) (d : EraDay) : Int := 146097 * era + d.dayOfEra - 719468

theorem dateOfDay_parts (era : Int) (d : EraDay) :
    (dateOfDay (dayOf era d)).month = monthOfYear d.days ∧
      (dateOfDay (dayOf era d)).day = dayOfMonth d.days := by
  have hlt := d.dayOfEra_lt
  have hshift : dayOf era d + 719468 = 146097 * era + d.dayOfEra := by
    unfold dayOf
    omega
  have hmod : ((dayOf era d + 719468) % 146097).toNat = d.dayOfEra := by
    rw [hshift]
    omega
  unfold dateOfDay
  simp only [hmod, d.year_read, d.days_read]
  exact ⟨rfl, rfl⟩

theorem exists_dayOf (day : Int) : ∃ era d, dayOf era d = day := by
  have hlt : ((day + 719468) % 146097).toNat < 146097 := by omega
  obtain ⟨d, hd⟩ := EraDay.exists_parts hlt
  refine ⟨(day + 719468) / 146097, d, ?_⟩
  unfold dayOf
  rw [hd]
  omega

/-- The most days that a month has. -/
def longestMonth (month : Nat) : Nat :=
  if month = 2 then 29 else if month ∈ [4, 6, 9, 11] then 30 else 31

/-- The days that a month has in every year. -/
def shortestMonth (month : Nat) : Nat :=
  if month = 2 then 28 else if month ∈ [4, 6, 9, 11] then 30 else 31

/-- No date goes beyond the longest its month can be. -/
theorem valid_dateOfDay (day : Int) :
    1 ≤ (dateOfDay day).month ∧ (dateOfDay day).month ≤ 12 ∧ 1 ≤ (dateOfDay day).day ∧
      (dateOfDay day).day ≤ longestMonth (dateOfDay day).month := by
  obtain ⟨era, d, rfl⟩ := exists_dayOf day
  obtain ⟨hmonth, hday⟩ := dateOfDay_parts era d
  have hle := d.days_le
  rw [hmonth, hday]
  unfold longestMonth monthOfYear dayOfMonth
  generalize hm : (5 * d.days + 2) / 153 = m
  have hrange : m < 12 := by omega
  interval_cases m <;> simp <;> omega

theorem exists_nextYear (day : Int) :
    ∃ era d, d.days = 0 ∧ day < dayOf era d ∧ dayOf era d ≤ day + 366 := by
  obtain ⟨era, d, rfl⟩ := exists_dayOf day
  obtain ⟨c, q, y, n, hc, hq, hy, hn, hleap⟩ := d
  by_cases hyears : y + 1 < 4
  · refine ⟨era, ⟨c, q, y + 1, 0, hc, hq, hyears, by omega, by omega⟩, rfl, ?_⟩
    simp only [dayOf, EraDay.dayOfEra]
    omega
  · by_cases hcycles : q + 1 < 25
    · refine ⟨era, ⟨c, q + 1, 0, 0, hc, hcycles, by omega, by omega, by omega⟩, rfl, ?_⟩
      simp only [dayOf, EraDay.dayOfEra]
      omega
    · by_cases hcenturies : c + 1 < 4
      · refine ⟨era, ⟨c + 1, 0, 0, 0, hcenturies, by omega, by omega, by omega, by omega⟩,
          rfl, ?_⟩
        simp only [dayOf, EraDay.dayOfEra]
        omega
      · refine ⟨era + 1, ⟨0, 0, 0, 0, by omega, by omega, by omega, by omega, by omega⟩,
          rfl, ?_⟩
        simp only [dayOf, EraDay.dayOfEra]
        omega

theorem dateOfDay_within {era : Int} {d : EraDay} {days : Nat} (hfirst : d.days = 0)
    (hdays : days < 365) :
    (dateOfDay (dayOf era d + days)).month = monthOfYear days ∧
      (dateOfDay (dayOf era d + days)).day = dayOfMonth days := by
  have hparts := dateOfDay_parts era { d with days := days, days_le := by omega, leap := by omega }
  have hday : dayOf era { d with days := days, days_le := by omega, leap := by omega } =
      dayOf era d + days := by
    simp only [dayOf, EraDay.dayOfEra, hfirst]
    omega
  rw [hday] at hparts
  exact hparts

/-- Every month begins again within two years, with all the days it always has. -/
theorem exists_month {month : Nat} (day : Int) (hfrom : 1 ≤ month) (hto : month ≤ 12) :
    ∃ first, day < first ∧ first ≤ day + 731 ∧ ∀ k : Nat, k < shortestMonth month →
      (dateOfDay (first + k)).month = month ∧ (dateOfDay (first + k)).day = k + 1 := by
  obtain ⟨era, d, hfirst, hafter, hwithin⟩ := exists_nextYear day
  obtain ⟨start, hstart⟩ : ∃ start, start = (153 * ((month + 9) % 12) + 2) / 5 := ⟨_, rfl⟩
  have hmonth : ∀ k < shortestMonth month,
      start + k < 365 ∧ monthOfYear (start + k) = month ∧ dayOfMonth (start + k) = k + 1 := by
    intro k hk
    have hindex : (5 * (start + k) + 2) / 153 = (month + 9) % 12 := by
      interval_cases month <;> simp [shortestMonth] at hk hstart <;> omega
    unfold monthOfYear dayOfMonth
    rw [hindex]
    interval_cases month <;> simp [shortestMonth] at hk hstart ⊢ <;> omega
  refine ⟨dayOf era d + start, by omega, by omega, fun k hk => ?_⟩
  obtain ⟨hin, hname, hday⟩ := hmonth k hk
  have hdate := @dateOfDay_within era d (start + k) hfirst hin
  rw [hname, hday] at hdate
  have hsum : dayOf era d + start + k = dayOf era d + ((start + k : Nat) : Int) := by omega
  rw [hsum]
  exact hdate

/-- There is a 29 February after every day. -/
theorem exists_leapDay (day : Int) :
    ∃ later, day < later ∧ (dateOfDay later).month = 2 ∧ (dateOfDay later).day = 29 := by
  obtain ⟨era, d, rfl⟩ := exists_dayOf day
  have hparts := dateOfDay_parts (era + 1)
    ⟨3, 24, 3, 365, by omega, by omega, by omega, by omega, by omega⟩
  refine ⟨_, ?_, hparts.1, hparts.2⟩
  have hlt := d.dayOfEra_lt
  simp only [dayOf, EraDay.dayOfEra] at hlt ⊢
  omega

theorem exists_weekday {weekday : Nat} (day : Int) (h : weekday < 7) :
    ∃ k : Nat, k < 7 ∧ weekdayOfDay (day + k) = weekday := by
  refine ⟨((weekday - (day + 4)) % 7).toNat, by omega, ?_⟩
  unfold weekdayOfDay
  omega

end CivilTime
end StudioWeb
