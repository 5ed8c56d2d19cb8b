import StudioWeb.Scheduler.CronExpression

/-!
# The firings of a cron expression

A minute of the calendar is a day and a minute of it.  `FiresAt` says which of them a cron
expression names, by cron's rule for its two day fields, and `next_after` is compared with
that.
-/

namespace StudioWeb
namespace Scheduler

open Rust CivilTime

section Firings

/-- Cron's rule for the day: one of the two fields when both are restricted, the restricted one
when one is, and any day when none is. -/
def Cron.DayRule (cron : Cron) (dayOfMonth dayOfWeek : Nat) : Prop :=
  if cron.domRestricted then
    if cron.dowRestricted then
      dayOfMonth ∈ cron.daysOfMonth ∨ dayOfWeek ∈ cron.daysOfWeek
    else
      dayOfMonth ∈ cron.daysOfMonth
  else if cron.dowRestricted then
    dayOfWeek ∈ cron.daysOfWeek
  else
    True

/-- Whether some minute of a day can be a firing. -/
def Cron.FiresOn (cron : Cron) (day : Int) : Prop :=
  (dateOfDay day).month ∈ cron.months ∧ cron.DayRule (dateOfDay day).day (weekdayOfDay day)

/-- A minute of the calendar that a cron expression names. -/
structure Cron.FiresAt (cron : Cron) (day : Int) (minuteOfDay : Nat) : Prop where
  minute : minuteOfDay % 60 ∈ cron.minutes
  hour : minuteOfDay / 60 ∈ cron.hours
  date : cron.FiresOn day

/-- An instant at the start of a minute. -/
def IsWholeMinute (t : OffsetDateTime) : Prop := t.nanos % nanosPerMinute = 0

structure Cron.Fires (cron : Cron) (t : OffsetDateTime) : Prop where
  whole : IsWholeMinute t
  named : cron.FiresAt t.dayNumber t.minuteOfDay

variable {cron : Cron}

theorem Cron.dayMatches_iff {dayOfMonth dayOfWeek : Nat} :
    cron.dayMatches dayOfMonth dayOfWeek = true ↔ cron.DayRule dayOfMonth dayOfWeek := by
  unfold Cron.dayMatches Cron.DayRule
  cases cron.domRestricted <;> cases cron.dowRestricted <;> simp

theorem Cron.dateMatches_iff {t : OffsetDateTime} :
    cron.dateMatches t = true ↔ cron.FiresOn t.dayNumber := by
  unfold Cron.dateMatches Cron.FiresOn
  rw [Bool.and_eq_true, Cron.dayMatches_iff, List.contains_iff_mem]
  rfl

theorem Cron.timeMatches_iff {t : OffsetDateTime} :
    cron.timeMatches t = true ↔
      t.minuteOfDay / 60 ∈ cron.hours ∧ t.minuteOfDay % 60 ∈ cron.minutes := by
  unfold Cron.timeMatches
  rw [Bool.and_eq_true, List.contains_iff_mem, List.contains_iff_mem]
  rfl

end Firings

section Search

variable {cron : Cron} {giveUp : OffsetDateTime}

variable {t next u : OffsetDateTime}

theorem same_day_before_nextMidnight (hnext : t.nextMidnight = .ok next)
    (hfrom : t ≤ u) (hto : u < next) : u.dayNumber = t.dayNumber := by
  have hmidnight := OffsetDateTime.ofNanos_eq_ok_iff.mp hnext
  rw [OffsetDateTime.le_def] at hfrom
  rw [OffsetDateTime.lt_def, hmidnight] at hto
  simp only [OffsetDateTime.dayNumber, nanosPerDay, nanosPerSecond] at *
  omega

theorem whole_minute_after (hwhole : IsWholeMinute t)
    (hnext : t.add oneMinute = .ok next) (hu : IsWholeMinute u) (hfrom : t ≤ u) (hne : u ≠ t) :
    next ≤ u := by
  have hminute := OffsetDateTime.add_eq_ok_iff.mp hnext
  have hnanos : u.nanos ≠ t.nanos := fun heq => hne (OffsetDateTime.ext heq)
  rw [OffsetDateTime.le_def] at hfrom ⊢
  simp only [IsWholeMinute, nanosPerMinute, nanosPerSecond, oneMinute, Duration.nanos] at *
  omega

theorem whole_add_minute {t next : OffsetDateTime} (hwhole : IsWholeMinute t)
    (hnext : t.add oneMinute = .ok next) : IsWholeMinute next := by
  have hminute := OffsetDateTime.add_eq_ok_iff.mp hnext
  simp only [IsWholeMinute, nanosPerMinute, nanosPerSecond, oneMinute, Duration.nanos] at *
  omega

theorem passed_by_day (hdate : ¬ cron.dateMatches t = true)
    (hnext : t.nextMidnight = .ok next) (hfrom : t ≤ u) (hfires : cron.Fires u) : next ≤ u := by
  by_contra hlate
  have hto : u < next := by
    rw [OffsetDateTime.lt_def]
    rw [OffsetDateTime.le_def] at hlate
    omega
  have hday := same_day_before_nextMidnight hnext hfrom hto
  have hon := hfires.named.date
  rw [hday] at hon
  exact hdate (Cron.dateMatches_iff.mpr hon)

theorem passed_by_minute (hwhole : IsWholeMinute t)
    (htime : ¬ cron.timeMatches t = true) (hnext : t.add oneMinute = .ok next) (hfrom : t ≤ u)
    (hfires : cron.Fires u) : next ≤ u := by
  refine whole_minute_after hwhole hnext hfires.whole hfrom ?_
  rintro rfl
  exact htime (Cron.timeMatches_iff.mpr ⟨hfires.named.hour, hfires.named.minute⟩)

/-- What the walk answers is the first firing from where it starts. -/
theorem search_firing :
    ∀ (fuel : Nat) {start t : OffsetDateTime}, IsWholeMinute start →
      cron.search giveUp fuel start = .ok t →
      cron.Fires t ∧ ∀ u, start ≤ u → cron.Fires u → t ≤ u
  | 0, start, t, _, h => by
    simp [Cron.search, fail] at h
  | fuel + 1, start, t, hwhole, h => by
    simp only [Cron.search] at h
    split_ifs at h with hle hdate htime
    · cases h
      obtain ⟨hhour, hminute⟩ := Cron.timeMatches_iff.mp htime
      exact ⟨⟨hwhole, hminute, hhour, Cron.dateMatches_iff.mp hdate⟩, fun _ hfrom _ => hfrom⟩
    · obtain ⟨next, hnext, hrest⟩ := bind_eq_ok_iff.mp h
      obtain ⟨hfires, hleast⟩ := search_firing fuel (whole_add_minute hwhole hnext) hrest
      refine ⟨hfires, fun u hfrom hu => ?_⟩
      exact hleast u (passed_by_minute hwhole htime hnext hfrom hu) hu
    · obtain ⟨next, hnext, hrest⟩ := bind_eq_ok_iff.mp h
      have hmidnight := (nextMidnight_ge_minute hwhole hnext).2
      obtain ⟨hfires, hleast⟩ := search_firing fuel hmidnight hrest
      refine ⟨hfires, fun u hfrom hu => ?_⟩
      exact hleast u (passed_by_day hdate hnext hfrom hu) hu
    · simp [fail] at h

/-- Where the walk answers that there is no firing, there is none up to where it gives up. -/
theorem search_refused :
    ∀ (fuel : Nat) {start : OffsetDateTime}, IsWholeMinute start → minutesLeft giveUp start ≤ fuel →
      cron.search giveUp fuel start = fail neverMatches →
      ∀ u, start ≤ u → u ≤ giveUp → ¬ cron.Fires u
  | 0, start, _, hleft, _, u, hfrom, hto, hfires => by
    rw [OffsetDateTime.le_def] at hfrom hto
    simp only [minutesLeft, nanosPerMinute, nanosPerSecond] at hleft
    omega
  | fuel + 1, start, hwhole, hleft, h, u, hfrom, hto, hfires => by
    simp only [Cron.search] at h
    split_ifs at h with hle hdate htime
    · cases h
    · cases hnext : start.add oneMinute with
      | error =>
        obtain ⟨rfl, _⟩ := OffsetDateTime.ofNanos_eq_error hnext
        rw [hnext] at h
        cases h
      | ok =>
        rw [hnext] at h
        have hminute := OffsetDateTime.add_eq_ok_iff.mp hnext
        refine search_refused fuel (whole_add_minute hwhole hnext) ?_ h u
          (passed_by_minute hwhole htime hnext hfrom hfires) hto hfires
        simp only [minutesLeft, nanosPerMinute, nanosPerSecond, oneMinute, Duration.nanos] at *
        omega
    · cases hnext : start.nextMidnight with
      | error =>
        obtain ⟨rfl, _⟩ := OffsetDateTime.ofNanos_eq_error hnext
        rw [hnext] at h
        cases h
      | ok =>
        rw [hnext] at h
        obtain ⟨hlater, hmidnight⟩ := nextMidnight_ge_minute hwhole hnext
        refine search_refused fuel hmidnight ?_ h u
          (passed_by_day hdate hnext hfrom hfires) hto hfires
        simp only [minutesLeft, nanosPerMinute, nanosPerSecond] at *
        omega
    · rw [OffsetDateTime.le_def] at hfrom hto hle
      omega

end Search

def searchStart (after : OffsetDateTime) : OffsetDateTime := after.startOfMinute.saturatingAddMinute

theorem nanos_searchStart {after giveUp : OffsetDateTime}
    (h : (searchStart after).add searchWindow = .ok giveUp) :
    (searchStart after).nanos = after.nanos / nanosPerMinute * nanosPerMinute + nanosPerMinute := by
  have hgiveUp := OffsetDateTime.add_eq_ok_iff.mp h
  have hbound := giveUp.le_max
  unfold searchStart OffsetDateTime.saturatingAddMinute at hgiveUp ⊢
  split
  · rfl
  · next hlate =>
    rw [dif_neg hlate] at hgiveUp
    simp only [searchWindow, Duration.nanos, maxDays, nanosPerSecond] at hgiveUp
    omega

theorem whole_searchStart {after giveUp : OffsetDateTime}
    (h : (searchStart after).add searchWindow = .ok giveUp) :
    IsWholeMinute (searchStart after) := by
  unfold IsWholeMinute
  rw [nanos_searchStart h]
  simp only [nanosPerMinute, nanosPerSecond]
  omega

theorem searchStart_le {after giveUp u : OffsetDateTime}
    (h : (searchStart after).add searchWindow = .ok giveUp) (hu : IsWholeMinute u)
    (hafter : after < u) : searchStart after ≤ u := by
  have hstart := nanos_searchStart h
  rw [OffsetDateTime.lt_def] at hafter
  rw [OffsetDateTime.le_def, hstart]
  simp only [IsWholeMinute, nanosPerMinute, nanosPerSecond] at *
  omega

/-- What `next_after` answers is the least whole minute after the instant that the expression
names. -/
theorem next_after_is_the_next_firing (cron : Cron) (after t : OffsetDateTime)
    (h : cron.nextAfter after = .ok t) :
    after < t ∧ cron.Fires t ∧ ∀ u, after < u → cron.Fires u → t ≤ u := by
  obtain ⟨giveUp, hgiveUp, hsearch⟩ := bind_eq_ok_iff.mp h
  obtain ⟨hfires, hleast⟩ := search_firing searchMinutes (whole_searchStart hgiveUp) hsearch
  refine ⟨Cron.nextAfter_gt h, hfires, fun u hu hfiresU => ?_⟩
  exact hleast u (searchStart_le hgiveUp hfiresU.whole hu) hfiresU

/-- `0 3 * * *`. -/
def dailyAtThree : Cron where
  minutes := [0]
  hours := [3]
  daysOfMonth := List.range' 1 31
  months := List.range' 1 12
  daysOfWeek := List.range 7
  domRestricted := false
  dowRestricted := false

example : Cron.parse "0 3 * * *".toList = .ok dailyAtThree := by
  decide +kernel

/-- A daily schedule crosses midnight: 2026-09-09T23:59:00, and 2026-09-10T03:00:00. -/
theorem three_comes_after_midnight :
    (⟨1788998340000000000, by decide, by decide⟩ : OffsetDateTime) <
        ⟨1789009200000000000, by decide, by decide⟩ ∧
      dailyAtThree.Fires ⟨1789009200000000000, by decide, by decide⟩ ∧
      ∀ u : OffsetDateTime, ⟨1788998340000000000, by decide, by decide⟩ < u →
        dailyAtThree.Fires u → ⟨1789009200000000000, by decide, by decide⟩ ≤ u :=
  next_after_is_the_next_firing dailyAtThree
    ⟨1788998340000000000, by decide, by decide⟩ ⟨1789009200000000000, by decide, by decide⟩
    (by decide +kernel)

end Scheduler
end StudioWeb
