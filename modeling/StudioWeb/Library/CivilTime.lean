import StudioWeb.Library.RustPrelude
import Mathlib.Tactic.Linarith
import Mathlib.Algebra.Order.Ring.Int

/-!
# Instants, durations and the proleptic Gregorian calendar

An `OffsetDateTime` is an instant in UTC, counted in nanoseconds since the Unix
epoch, inside the years -9999 to 9999.  The bounds are fields, so an instant out
of range cannot be built: arithmetic that would leave the range is an overflow.

A `Duration` is a whole number of seconds that fits an `i64`.  No duration of
the modelled code has a fraction of a second.

The calendar reads an instant through its day number (days since the epoch): the
date depends on the day alone, and the time of day on the rest.
-/

namespace StudioWeb
namespace CivilTime

open Rust

def nanosPerSecond : Int := 1000000000

def nanosPerMinute : Int := 60 * nanosPerSecond

def nanosPerDay : Int := 86400 * nanosPerSecond

def firstDay : Int := -4371587

def endDay : Int := 2932897

/-- The first and the last representable instant. -/
def minNanos : Int := firstDay * nanosPerDay

def maxNanos : Int := endDay * nanosPerDay - 1

theorem minNanos_nonpos : minNanos ≤ 0 := by decide

theorem maxNanos_nonneg : 0 ≤ maxNanos := by decide

/-- An instant in UTC. -/
structure OffsetDateTime where
  nanos : Int
  min_le : minNanos ≤ nanos
  le_max : nanos ≤ maxNanos
deriving DecidableEq

namespace OffsetDateTime

instance : LE OffsetDateTime := ⟨fun s t => s.nanos ≤ t.nanos⟩

instance : LT OffsetDateTime := ⟨fun s t => s.nanos < t.nanos⟩

instance (s t : OffsetDateTime) : Decidable (s ≤ t) :=
  inferInstanceAs (Decidable (s.nanos ≤ t.nanos))

instance (s t : OffsetDateTime) : Decidable (s < t) :=
  inferInstanceAs (Decidable (s.nanos < t.nanos))

variable {s t : OffsetDateTime}

theorem le_def : s ≤ t ↔ s.nanos ≤ t.nanos := by
  rfl

theorem lt_def : s < t ↔ s.nanos < t.nanos := by
  rfl

@[ext] theorem ext (h : s.nanos = t.nanos) : s = t := by
  cases s
  cases t
  cases h
  rfl

end OffsetDateTime

/-- The bounds of an `i64`. -/
def i64Min : Int := -9223372036854775808

def i64Max : Int := 9223372036854775807

/-- A whole number of seconds. -/
structure Duration where
  wholeSeconds : Int
  min_le : i64Min ≤ wholeSeconds
  le_max : wholeSeconds ≤ i64Max
deriving DecidableEq

namespace Duration

/-- A count of seconds, or the overflow the constructors panic on. -/
def ofSeconds (seconds : Int) : Outcome Duration :=
  if h : i64Min ≤ seconds ∧ seconds ≤ i64Max then
    .ok ⟨seconds, h.1, h.2⟩
  else
    overflow

def zero : Duration := ⟨0, by decide, by decide⟩

/-- The constructors of whole units. -/
def seconds (value : Int) : Outcome Duration := ofSeconds value

def minutes (value : Int) : Outcome Duration := ofSeconds (value * 60)

def hours (value : Int) : Outcome Duration := ofSeconds (value * 3600)

def days (value : Int) : Outcome Duration := ofSeconds (value * 86400)

def weeks (value : Int) : Outcome Duration := ofSeconds (value * 604800)

/-- `Duration + Duration`. -/
def add (d e : Duration) : Outcome Duration := ofSeconds (d.wholeSeconds + e.wholeSeconds)

def nanos (d : Duration) : Int := d.wholeSeconds * nanosPerSecond

end Duration

namespace OffsetDateTime

/-- An instant at a count of nanoseconds, or the overflow `+` panics on. -/
def ofNanos (nanos : Int) : Outcome OffsetDateTime :=
  if h : minNanos ≤ nanos ∧ nanos ≤ maxNanos then
    .ok ⟨nanos, h.1, h.2⟩
  else
    overflow

theorem ofNanos_eq_ok_iff {nanos : Int} {t : OffsetDateTime} :
    ofNanos nanos = .ok t ↔ t.nanos = nanos := by
  unfold ofNanos
  constructor
  · intro h
    split at h
    · cases h
      rfl
    · cases h
  · intro h
    subst h
    rw [dif_pos ⟨t.min_le, t.le_max⟩]

theorem ofNanos_eq_error {nanos : Int} {failure : Failure} (h : ofNanos nanos = .error failure) :
    failure = .panic ∧ ¬ (minNanos ≤ nanos ∧ nanos ≤ maxNanos) := by
  unfold ofNanos at h
  split at h
  · cases h
  · next hrange =>
    cases h
    exact ⟨rfl, hrange⟩

/-- `OffsetDateTime + Duration`. -/
def add (t : OffsetDateTime) (d : Duration) : Outcome OffsetDateTime := ofNanos (t.nanos + d.nanos)

theorem add_eq_ok_iff {t u : OffsetDateTime} {d : Duration} :
    t.add d = .ok u ↔ u.nanos = t.nanos + d.nanos :=
  ofNanos_eq_ok_iff

/-- `saturating_add` of a minute. -/
def saturatingAddMinute (t : OffsetDateTime) : OffsetDateTime :=
  if h : t.nanos + nanosPerMinute ≤ maxNanos then
    ⟨t.nanos + nanosPerMinute,
      by have := t.min_le; simp only [nanosPerMinute, nanosPerSecond]; omega, h⟩
  else
    ⟨maxNanos, by decide, by decide⟩

/-- `replace_second(0)` and `replace_nanosecond(0)`: the start of the minute. -/
def startOfMinute (t : OffsetDateTime) : OffsetDateTime :=
  ⟨t.nanos / nanosPerMinute * nanosPerMinute, by
    have := t.min_le
    simp only [minNanos, firstDay, nanosPerDay, nanosPerMinute, nanosPerSecond] at *
    omega, by
    have := t.le_max
    simp only [maxNanos, endDay, nanosPerDay, nanosPerMinute, nanosPerSecond] at *
    omega⟩

/-- The day an instant falls on, counted from the epoch. -/
def dayNumber (t : OffsetDateTime) : Int := t.nanos / nanosPerDay

def minuteOfDay (t : OffsetDateTime) : Nat := (t.nanos % nanosPerDay / nanosPerMinute).toNat

def hour (t : OffsetDateTime) : Nat := t.minuteOfDay / 60

def minute (t : OffsetDateTime) : Nat := t.minuteOfDay % 60

def second (t : OffsetDateTime) : Nat := (t.nanos % nanosPerMinute / nanosPerSecond).toNat

/-- `replace_time(Time::MIDNIGHT) + Duration::days(1)`. -/
def nextMidnight (t : OffsetDateTime) : Outcome OffsetDateTime :=
  ofNanos ((t.dayNumber + 1) * nanosPerDay)

/-- Seconds since the epoch, rounded down. -/
def unixTimestamp (t : OffsetDateTime) : Int := t.nanos / nanosPerSecond

end OffsetDateTime

/-- A date of the proleptic Gregorian calendar. -/
structure Date where
  year : Int
  month : Nat
  day : Nat
deriving DecidableEq

/-- The date of a day number: eras of 400 years, each counted from 1 March, so
that the leap day is the last day of its year. -/
def dateOfDay (dayNumber : Int) : Date :=
  let shifted := dayNumber + 719468
  let era := shifted / 146097
  let dayOfEra := (shifted % 146097).toNat
  let yearOfEra := (dayOfEra - dayOfEra / 1460 + dayOfEra / 36524 - dayOfEra / 146096) / 365
  let dayOfYear := dayOfEra - (365 * yearOfEra + yearOfEra / 4 - yearOfEra / 100)
  let monthFromMarch := (5 * dayOfYear + 2) / 153
  let month := if monthFromMarch < 10 then monthFromMarch + 3 else monthFromMarch - 9
  { year := yearOfEra + era * 400 + (if month ≤ 2 then 1 else 0)
    month := month
    day := dayOfYear - (153 * monthFromMarch + 2) / 5 + 1 }

/-- `number_days_from_sunday`: the epoch was a Thursday. -/
def weekdayOfDay (dayNumber : Int) : Nat := ((dayNumber + 4) % 7).toNat

example : dateOfDay 20705 = ⟨2026, 9, 9⟩ := by decide

/-- The date an instant falls on. -/
def OffsetDateTime.date (t : OffsetDateTime) : Date := dateOfDay t.dayNumber

/-- Days from Sunday of the date an instant falls on. -/
def OffsetDateTime.weekday (t : OffsetDateTime) : Nat := weekdayOfDay t.dayNumber

/-- The minute after the one an instant falls in starts after the instant,
unless the range ends first. -/
theorem lt_saturatingAddMinute_startOfMinute (t : OffsetDateTime) :
    t < t.startOfMinute.saturatingAddMinute ∨
      t.startOfMinute.saturatingAddMinute.nanos = maxNanos := by
  unfold OffsetDateTime.saturatingAddMinute
  split
  · left
    rw [OffsetDateTime.lt_def]
    simp only [OffsetDateTime.startOfMinute, nanosPerMinute, nanosPerSecond]
    omega
  · right
    rfl

theorem lt_of_nextMidnight {t u : OffsetDateTime} (h : t.nextMidnight = .ok u) : t < u := by
  have hu := OffsetDateTime.ofNanos_eq_ok_iff.mp h
  rw [OffsetDateTime.lt_def, hu]
  simp only [OffsetDateTime.dayNumber, nanosPerDay, nanosPerSecond]
  omega

end CivilTime
end StudioWeb
