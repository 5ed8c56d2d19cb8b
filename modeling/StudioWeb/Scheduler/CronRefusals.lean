import StudioWeb.Library.CivilDates
import StudioWeb.Scheduler.CronFields
import StudioWeb.Scheduler.CronFirings

/-!
# When a cron expression is refused

`next_after` looks four years ahead.  Whatever an expression names, it names within two years
and a month, but for a 29 February that no other day stands in for: across a century without a
leap day the next one is eight years away.
-/

namespace StudioWeb
namespace Scheduler

open Rust CivilTime List

/-- The instant at which a minute of the calendar starts. -/
def minuteNanos (day : Int) (minuteOfDay : Nat) : Int :=
  day * nanosPerDay + minuteOfDay * nanosPerMinute

/-- A refusal says that no later minute of the calendar is a firing. -/
def RefusedForGood (cron : Cron) (after : OffsetDateTime) : Prop :=
  cron.nextAfter after = fail neverMatches → ∀ (day : Int) (minuteOfDay : Nat), minuteOfDay < 1440 →
      after.nanos < minuteNanos day minuteOfDay → ¬ cron.FiresAt day minuteOfDay

structure Cron.OnlyLeapDay (cron : Cron) : Prop where
  byDayOfMonth : cron.domRestricted = true
  anyWeekday : cron.dowRestricted = false
  february : ∀ month ∈ cron.months, month = 2
  days : ∀ day ∈ cron.daysOfMonth, 29 ≤ day
  leapDay : 29 ∈ cron.daysOfMonth

/-- An expression names a 29 February alone, and the days looked at have none of its minutes. -/
structure LeapDayTooFar (cron : Cron) (after : OffsetDateTime) : Prop where
  only : cron.OnlyLeapDay
  fits : (searchStart after).nanos + searchWindow.nanos ≤ maxNanos
  far : ∀ (day : Int) (minuteOfDay : Nat), (dateOfDay day).month = 2 → (dateOfDay day).day = 29 →
    minuteOfDay < 1440 → minuteOfDay % 60 ∈ cron.minutes → minuteOfDay / 60 ∈ cron.hours →
    (searchStart after).nanos ≤ minuteNanos day minuteOfDay →
    (searchStart after).nanos + searchWindow.nanos < minuteNanos day minuteOfDay

structure FieldValues (values : List Nat) (min max : Nat) : Prop where
  ne_nil : values ≠ []
  bounds : ∀ v ∈ values, min ≤ v ∧ v ≤ max

structure Cron.WellFormed (cron : Cron) : Prop where
  minutes : FieldValues cron.minutes 0 59
  hours : FieldValues cron.hours 0 23
  daysOfMonth : FieldValues cron.daysOfMonth 1 31
  months : FieldValues cron.months 1 12
  daysOfWeek : FieldValues cron.daysOfWeek 0 6

section ParsedFields

variable {min max : Nat} {name : String}

theorem bounds_of_parseIn {raw : List Char} {value : Nat}
    (h : parseIn raw min max name = .ok value) : min ≤ value ∧ value ≤ max := by
  unfold parseIn at h
  split at h
  · cases h
  · split at h
    · cases h
    · next _ =>
      cases h
      omega

theorem bounds_of_fieldBounds {range : List Char} {step first last : Nat}
    (h : fieldBounds range step min max name = .ok (first, last)) : min ≤ first ∧ last ≤ max := by
  unfold fieldBounds at h
  split at h
  · cases h
    exact ⟨le_refl min, le_refl max⟩
  · split at h
    · obtain ⟨low, hlow, hrest⟩ := bind_eq_ok_iff.mp h
      obtain ⟨high, hhigh, hpair⟩ := bind_eq_ok_iff.mp hrest
      cases hpair
      exact ⟨(bounds_of_parseIn hlow).1, (bounds_of_parseIn hhigh).2⟩
    · obtain ⟨one, hone, hrest⟩ := bind_eq_ok_iff.mp h
      obtain ⟨hmin, hmax⟩ := bounds_of_parseIn hone
      split at hrest
      · cases hrest
        exact ⟨hmin, hmax⟩
      · cases hrest
        exact ⟨hmin, le_refl max⟩

theorem values_of_fieldPart {part : List Char} {values : List Nat} (hmax : max < 255)
    (h : fieldPart part min max name = .ok values) : FieldValues values min max := by
  unfold fieldPart at h
  split at h
  · cases h
  · obtain ⟨⟨range, step⟩, _, hrest⟩ := bind_eq_ok_iff.mp h
    obtain ⟨⟨first, last⟩, hbounds, hvalues⟩ := bind_eq_ok_iff.mp hrest
    obtain ⟨hfirst, hlast⟩ := bounds_of_fieldBounds hbounds
    by_cases hle : last < first
    · simp only [if_pos hle] at hvalues
      cases hvalues
    · simp only [if_neg hle, Except.ok.injEq] at hvalues
      subst hvalues
      constructor
      · unfold stepValues
        rw [if_pos (Nat.le_of_not_lt hle)]
        exact cons_ne_nil _ _
      · intro v hv
        obtain ⟨k, _, hv, hto⟩ := (mem_stepValues (by omega)).mp hv
        omega

theorem values_of_field {raw : List Char} {values : List Nat} (hmax : max < 255)
    (h : field raw min max name = .ok values) : FieldValues values min max := by
  obtain ⟨lists, hlists, hvalues⟩ := bind_eq_ok_iff.mp h
  cases hvalues
  have hread := mapM_eq_ok_iff.mp hlists
  have hall : ∀ pieces lists,
      List.Forall₂ (fun piece list => fieldPart piece min max name = .ok list) pieces lists →
      ∀ list ∈ lists, FieldValues list min max := by
    intro pieces lists hread
    induction hread with
    | nil => nofun
    | cons hpiece _ ih =>
      intro list hlist
      rcases mem_cons.mp hlist with rfl | hlist
      · exact values_of_fieldPart hmax hpiece
      · exact ih list hlist
  have hvalues := hall _ lists hread
  have hmem : ∀ v, v ∈ (lists.flatten.insertionSort (· ≤ ·)).dedup ↔ ∃ list ∈ lists, v ∈ list := by
    intro v
    rw [mem_dedup, mem_insertionSort, mem_flatten]
  constructor
  · cases hlists : lists with
    | nil =>
      rw [hlists] at hread
      exact absurd (forall₂_nil_right_iff.mp hread) (splitOn_ne_nil ',' (trim raw))
    | cons list =>
      have hin : list ∈ lists := hlists ▸ mem_cons_self
      obtain ⟨v, hv⟩ := exists_mem_of_ne_nil list (hvalues list hin).ne_nil
      rw [← hlists]
      exact ne_nil_of_mem ((hmem v).mpr ⟨list, hin, hv⟩)
  · intro v hv
    obtain ⟨list, hlist, hvlist⟩ := (hmem v).mp hv
    exact (hvalues list hlist).bounds v hvlist

/-- What a parsed expression guarantees of its fields. -/
theorem Cron.wellFormed {expression : List Char} {cron : Cron}
    (h : Cron.parse expression = .ok cron) : cron.WellFormed := by
  unfold Cron.parse at h
  split at h
  · obtain ⟨minutes, hminutes, h⟩ := bind_eq_ok_iff.mp h
    obtain ⟨hours, hhours, h⟩ := bind_eq_ok_iff.mp h
    obtain ⟨daysOfMonth, hdaysOfMonth, h⟩ := bind_eq_ok_iff.mp h
    obtain ⟨months, hmonths, h⟩ := bind_eq_ok_iff.mp h
    obtain ⟨daysOfWeek, hdaysOfWeek, h⟩ := bind_eq_ok_iff.mp h
    cases h
    exact
      { minutes := values_of_field (by decide) hminutes
        hours := values_of_field (by decide) hhours
        daysOfMonth := values_of_field (by decide) hdaysOfMonth
        months := values_of_field (by decide) hmonths
        daysOfWeek := values_of_field (by decide) hdaysOfWeek }
  · cases h

end ParsedFields

section Days

variable {cron : Cron}

theorem twentyEight_le_shortestMonth (month : Nat) :
    28 ≤ shortestMonth month ∧ shortestMonth month ≤ 31 := by
  unfold shortestMonth
  split
  · omega
  · split
    · omega
    · omega

theorem shortestMonth_or_leapDay {month day : Nat} (h : day ≤ longestMonth month) :
    day ≤ shortestMonth month ∨ month = 2 ∧ day = 29 := by
  unfold longestMonth at h
  unfold shortestMonth
  split at h
  · next hfebruary =>
    rw [if_pos hfebruary]
    omega
  · next hother =>
    rw [if_neg hother]
    exact Or.inl h

theorem exists_date {month day : Nat} (start : Int) (hmonth : 1 ≤ month ∧ month ≤ 12)
    (hday : 1 ≤ day ∧ day ≤ shortestMonth month) :
    ∃ later, start < later ∧ later ≤ start + 762 ∧
      (dateOfDay later).month = month ∧ (dateOfDay later).day = day := by
  obtain ⟨first, hafter, hwithin, hdates⟩ := exists_month start hmonth.1 hmonth.2
  obtain ⟨hname, hdate⟩ := hdates (day - 1) (by omega)
  have hlong := (twentyEight_le_shortestMonth month).2
  exact ⟨first + ((day - 1 : Nat) : Int), by omega, by omega, hname, by omega⟩

theorem exists_weekday_in_month {month weekday : Nat} (start : Int)
    (hmonth : 1 ≤ month ∧ month ≤ 12) (hweekday : weekday < 7) :
    ∃ later, start < later ∧ later ≤ start + 762 ∧
      (dateOfDay later).month = month ∧ weekdayOfDay later = weekday := by
  obtain ⟨first, hafter, hwithin, hdates⟩ := exists_month start hmonth.1 hmonth.2
  obtain ⟨k, hk, hname⟩ := exists_weekday first hweekday
  have hlong := (twentyEight_le_shortestMonth month).1
  exact ⟨first + k, by omega, by omega, (hdates k (by omega)).1, hname⟩

/-- An expression that fires at all fires within two years and a month, unless it names a
29 February alone. -/
theorem fires_within {day : Int} (start : Int) (hwell : cron.WellFormed) (hfires : cron.FiresOn day)
    (hother : ¬ cron.OnlyLeapDay) :
    ∃ later, start < later ∧ later ≤ start + 762 ∧ cron.FiresOn later := by
  obtain ⟨hin, hrule⟩ := hfires
  have hmonth := hwell.months.bounds _ hin
  obtain ⟨_, _, hfirst, hlongest⟩ := valid_dateOfDay day
  cases hdow : cron.dowRestricted with
  | true =>
    -- some day of the week will do
    obtain ⟨weekday, hweekday⟩ := exists_mem_of_ne_nil _ hwell.daysOfWeek.ne_nil
    obtain ⟨later, hafter, hwithin, hname, hday⟩ := exists_weekday_in_month start hmonth
      (Nat.lt_succ_of_le (hwell.daysOfWeek.bounds weekday hweekday).2)
    refine ⟨later, hafter, hwithin, ?_, ?_⟩
    · rw [hname]
      exact hin
    · unfold Cron.DayRule
      rw [hdow, hday]
      split
      · exact Or.inr hweekday
      · exact hweekday
  | false =>
    cases hdom : cron.domRestricted with
    | false =>
      obtain ⟨later, hafter, hwithin, hname, _⟩ := exists_date start hmonth
        ⟨le_refl 1, le_trans (by decide) (twentyEight_le_shortestMonth _).1⟩
      refine ⟨later, hafter, hwithin, ?_, ?_⟩
      · rw [hname]
        exact hin
      · unfold Cron.DayRule
        rw [hdow, hdom]
        exact trivial
    | true =>
      have hdays : ∀ {month dayOfMonth}, month ∈ cron.months →
          dayOfMonth ∈ cron.daysOfMonth → dayOfMonth ≤ shortestMonth month →
          ∃ later, start < later ∧ later ≤ start + 762 ∧ cron.FiresOn later := by
        intro month dayOfMonth hin hday hshort
        obtain ⟨later, hafter, hwithin, hname, hdate⟩ := exists_date start
          (hwell.months.bounds month hin)
          ⟨(hwell.daysOfMonth.bounds dayOfMonth hday).1, hshort⟩
        refine ⟨later, hafter, hwithin, ?_, ?_⟩
        · rw [hname]
          exact hin
        · unfold Cron.DayRule
          rw [hdow, hdom, hdate]
          exact hday
      unfold Cron.DayRule at hrule
      rw [hdow, hdom] at hrule
      rcases shortestMonth_or_leapDay hlongest with hshort | ⟨hfebruary, hleap⟩
      · exact hdays hin hrule hshort
      · rw [hleap] at hrule
        by_cases hmonths : ∀ month ∈ cron.months, month = 2
        · by_cases hlate : ∀ dayOfMonth ∈ cron.daysOfMonth, 29 ≤ dayOfMonth
          · exact absurd ⟨hdom, hdow, hmonths, hlate, hrule⟩ hother
          · push Not at hlate
            obtain ⟨dayOfMonth, hday, hearly⟩ := hlate
            have hshort := (twentyEight_le_shortestMonth (dateOfDay day).month).1
            exact hdays hin hday (by omega)
        · push Not at hmonths
          obtain ⟨month, hmonthIn, hnot⟩ := hmonths
          refine hdays hmonthIn hrule ?_
          unfold shortestMonth
          rw [if_neg hnot]
          split
          · omega
          · omega

end Days

section Window

variable {cron : Cron} {after giveUp : OffsetDateTime}

theorem minuteNanos_of_whole {t : OffsetDateTime} (h : IsWholeMinute t) :
    minuteNanos t.dayNumber t.minuteOfDay = t.nanos ∧ t.minuteOfDay < 1440 := by
  simp only [IsWholeMinute, minuteNanos, OffsetDateTime.dayNumber, OffsetDateTime.minuteOfDay,
    nanosPerDay, nanosPerMinute, nanosPerSecond] at *
  omega

theorem fires_of_nanos {u : OffsetDateTime} {day : Int} {minuteOfDay : Nat}
    (hminute : minuteOfDay < 1440) (hnanos : u.nanos = minuteNanos day minuteOfDay)
    (h : cron.FiresAt day minuteOfDay) : cron.Fires u := by
  have hday : u.dayNumber = day := by
    simp only [minuteNanos, OffsetDateTime.dayNumber, nanosPerDay, nanosPerMinute,
      nanosPerSecond] at *
    omega
  have hof : u.minuteOfDay = minuteOfDay := by
    simp only [minuteNanos, OffsetDateTime.minuteOfDay, nanosPerDay, nanosPerMinute,
      nanosPerSecond] at *
    omega
  constructor
  · simp only [IsWholeMinute, minuteNanos, nanosPerDay, nanosPerMinute, nanosPerSecond] at *
    omega
  · rw [hday, hof]
    exact h

theorem exists_search_of_refused (h : cron.nextAfter after = fail neverMatches) :
    ∃ giveUp, (searchStart after).add searchWindow = .ok giveUp ∧
      cron.search giveUp searchMinutes (searchStart after) = fail neverMatches := by
  change ((searchStart after).add searchWindow >>= fun giveUp =>
    cron.search giveUp searchMinutes (searchStart after)) = fail neverMatches at h
  cases hadd : (searchStart after).add searchWindow with
  | error =>
    obtain ⟨rfl, _⟩ := OffsetDateTime.ofNanos_eq_error hadd
    rw [hadd] at h
    cases h
  | ok giveUp =>
    rw [hadd] at h
    exact ⟨giveUp, rfl, h⟩

theorem none_in_window {day : Int} {minuteOfDay : Nat}
    (hadd : (searchStart after).add searchWindow = .ok giveUp)
    (hsearch : cron.search giveUp searchMinutes (searchStart after) = fail neverMatches)
    (hminute : minuteOfDay < 1440) (hfrom : (searchStart after).nanos ≤ minuteNanos day minuteOfDay)
    (hto : minuteNanos day minuteOfDay ≤ giveUp.nanos) : ¬ cron.FiresAt day minuteOfDay := by
  intro h
  have hmin := (searchStart after).min_le
  have hmax := giveUp.le_max
  obtain ⟨u, hnanos⟩ : ∃ u : OffsetDateTime, u.nanos = minuteNanos day minuteOfDay :=
    ⟨⟨minuteNanos day minuteOfDay, by omega, by omega⟩, rfl⟩
  refine search_refused searchMinutes (whole_searchStart hadd)
    (minutesLeft_le_searchMinutes hadd) hsearch u ?_ ?_ (fires_of_nanos hminute hnanos h)
  · rw [OffsetDateTime.le_def, hnanos]
    exact hfrom
  · rw [OffsetDateTime.le_def, hnanos]
    exact hto

theorem search_le_giveUp :
    ∀ (fuel : Nat) {start t : OffsetDateTime}, cron.search giveUp fuel start = .ok t → t ≤ giveUp
  | 0, start, t, h => by
    cases h
  | fuel + 1, start, t, h => by
    simp only [Cron.search] at h
    split_ifs at h with hle hdate htime
    · cases h
      exact hle
    · obtain ⟨next, _, hrest⟩ := bind_eq_ok_iff.mp h
      exact search_le_giveUp fuel hrest
    · obtain ⟨next, _, hrest⟩ := bind_eq_ok_iff.mp h
      exact search_le_giveUp fuel hrest
    · cases h

theorem search_error :
    ∀ (fuel : Nat) {start : OffsetDateTime} {failure : Failure},
      cron.search giveUp fuel start = .error failure →
      failure = .error neverMatches ∨ endDay ≤ giveUp.dayNumber + 1
  | 0, start, failure, h => by
    cases h
    exact Or.inl rfl
  | fuel + 1, start, failure, h => by
    simp only [Cron.search] at h
    split_ifs at h with hle hdate htime
    · cases hnext : start.add oneMinute with
      | error =>
        obtain ⟨_, hrange⟩ := OffsetDateTime.ofNanos_eq_error hnext
        have hmin := start.min_le
        right
        rw [OffsetDateTime.le_def] at hle
        simp only [OffsetDateTime.dayNumber, oneMinute, Duration.nanos, maxNanos, endDay,
          nanosPerDay, nanosPerSecond] at *
        omega
      | ok =>
        rw [hnext] at h
        exact search_error fuel h
    · cases hnext : start.nextMidnight with
      | error =>
        obtain ⟨_, hrange⟩ := OffsetDateTime.ofNanos_eq_error hnext
        have hmin := start.min_le
        right
        rw [OffsetDateTime.le_def] at hle
        simp only [OffsetDateTime.dayNumber, minNanos, maxNanos, firstDay, endDay,
          nanosPerDay, nanosPerSecond] at *
        omega
      | ok =>
        rw [hnext] at h
        exact search_error fuel h
    · cases h
      exact Or.inl rfl

end Window

section LeapDays

variable {cron : Cron} {after : OffsetDateTime}

theorem firesAt_leapDay {day : Int} {minuteOfDay : Nat} (honly : cron.OnlyLeapDay)
    (hmonths : 2 ∈ cron.months) (hmonth : (dateOfDay day).month = 2)
    (hday : (dateOfDay day).day = 29) (hminute : minuteOfDay % 60 ∈ cron.minutes)
    (hhour : minuteOfDay / 60 ∈ cron.hours) : cron.FiresAt day minuteOfDay := by
  refine ⟨hminute, hhour, ?_, ?_⟩
  · rw [hmonth]
    exact hmonths
  · unfold Cron.DayRule
    rw [honly.byDayOfMonth, honly.anyWeekday, hday]
    exact honly.leapDay

theorem leapDay_of_firesOn {day : Int} (honly : cron.OnlyLeapDay) (h : cron.FiresOn day) :
    (dateOfDay day).month = 2 ∧ (dateOfDay day).day = 29 := by
  obtain ⟨hin, hrule⟩ := h
  unfold Cron.DayRule at hrule
  rw [honly.byDayOfMonth, honly.anyWeekday] at hrule
  have hmonth := honly.february _ hin
  have hfrom := honly.days _ hrule
  obtain ⟨_, _, _, hto⟩ := valid_dateOfDay day
  rw [hmonth] at hto
  have hlongest : longestMonth 2 = 29 := rfl
  omega

theorem exists_minuteOfDay (hwell : cron.WellFormed) :
    ∃ minuteOfDay < 1440, minuteOfDay % 60 ∈ cron.minutes ∧ minuteOfDay / 60 ∈ cron.hours := by
  obtain ⟨minute, hminute⟩ := exists_mem_of_ne_nil _ hwell.minutes.ne_nil
  obtain ⟨hour, hhour⟩ := exists_mem_of_ne_nil _ hwell.hours.ne_nil
  have hsixty := (hwell.minutes.bounds minute hminute).2
  have hday := (hwell.hours.bounds hour hhour).2
  have hmod : (60 * hour + minute) % 60 = minute := by omega
  have hdiv : (60 * hour + minute) / 60 = hour := by omega
  refine ⟨60 * hour + minute, by omega, ?_, ?_⟩
  · rw [hmod]
    exact hminute
  · rw [hdiv]
    exact hhour

theorem dateOfDay_lastLeapDay : dateOfDay 2931495 = ⟨9996, 2, 29⟩ := by
  decide

theorem refused_of_tooFar (hwell : cron.WellFormed) (h : LeapDayTooFar cron after) :
    cron.nextAfter after = fail neverMatches := by
  have hmin := (searchStart after).min_le
  have hwindow : searchWindow.nanos = 126489600000000000 := rfl
  obtain ⟨giveUp, hadd⟩ : ∃ giveUp, (searchStart after).add searchWindow = .ok giveUp :=
    ⟨⟨(searchStart after).nanos + searchWindow.nanos, by omega, h.fits⟩,
      OffsetDateTime.add_eq_ok_iff.mpr rfl⟩
  have hgiveUp := OffsetDateTime.add_eq_ok_iff.mp hadd
  have hnext : cron.nextAfter after = cron.search giveUp searchMinutes (searchStart after) := by
    change ((searchStart after).add searchWindow >>= fun giveUp =>
      cron.search giveUp searchMinutes (searchStart after)) = _
    rw [hadd]
    rfl
  rw [hnext]
  cases hsearch : cron.search giveUp searchMinutes (searchStart after) with
  | ok t =>
    -- a firing in the window would be a 29 February
    exfalso
    have hle := search_le_giveUp searchMinutes hsearch
    have hge := search_ge searchMinutes hsearch
    have hfires := (search_firing searchMinutes (whole_searchStart hadd) hsearch).1
    obtain ⟨hnanos, hlt⟩ := minuteNanos_of_whole hfires.whole
    obtain ⟨hmonth, hday⟩ := leapDay_of_firesOn h.only hfires.named.date
    rw [OffsetDateTime.le_def] at hle hge
    have hfar := h.far t.dayNumber t.minuteOfDay hmonth hday hlt hfires.named.minute
      hfires.named.hour (by omega)
    omega
  | error =>
    rcases search_error searchMinutes hsearch with rfl | hend
    · rfl
    · -- at the end of the range the window has the 29 February of the year 9996
      exfalso
      obtain ⟨minuteOfDay, hlt, hminute, hhour⟩ := exists_minuteOfDay hwell
      have hmax := giveUp.le_max
      have hfar := h.far 2931495 minuteOfDay (by rw [dateOfDay_lastLeapDay])
        (by rw [dateOfDay_lastLeapDay]) hlt hminute hhour
      simp only [minuteNanos, OffsetDateTime.dayNumber, maxNanos, endDay, nanosPerDay,
        nanosPerMinute, nanosPerSecond] at *
      omega

/-- A refusal is right unless the expression names a 29 February alone and the next one is
further away than the search looks. -/
theorem refused_for_good_iff (expression : List Char) (cron : Cron) (after : OffsetDateTime)
    (h : Cron.parse expression = .ok cron) :
    RefusedForGood cron after ↔ ¬ LeapDayTooFar cron after := by
  have hwell := Cron.wellFormed h
  constructor
  · intro hgood htooFar
    have hrefused := refused_of_tooFar hwell htooFar
    obtain ⟨minuteOfDay, hlt, hminute, hhour⟩ := exists_minuteOfDay hwell
    obtain ⟨month, hmonth⟩ := exists_mem_of_ne_nil _ hwell.months.ne_nil
    have hfebruary := htooFar.only.february month hmonth
    rw [hfebruary] at hmonth
    obtain ⟨day, hlater, hname, hdate⟩ := exists_leapDay after.dayNumber
    refine hgood hrefused day minuteOfDay hlt ?_
      (firesAt_leapDay htooFar.only hmonth hname hdate hminute hhour)
    simp only [minuteNanos, OffsetDateTime.dayNumber, nanosPerDay, nanosPerMinute,
      nanosPerSecond] at *
    omega
  · intro hnot hrefused day minuteOfDay hlt _ hfires
    obtain ⟨giveUp, hadd, hsearch⟩ := exists_search_of_refused hrefused
    have hgiveUp := OffsetDateTime.add_eq_ok_iff.mp hadd
    have hwindow : searchWindow.nanos = 126489600000000000 := rfl
    by_cases honly : cron.OnlyLeapDay
    · have hmonth := hfires.date.1
      rw [honly.february _ hmonth] at hmonth
      refine hnot ⟨honly, hgiveUp ▸ giveUp.le_max, ?_⟩
      intro leapDay minuteOfDay hname hdate hlt hminute hhour hfrom
      by_contra hto
      rw [← hgiveUp] at hto
      exact none_in_window hadd hsearch hlt hfrom (by omega)
        (firesAt_leapDay honly hmonth hname hdate hminute hhour)
    · obtain ⟨later, hafter, hwithin, hon⟩ :=
        fires_within (searchStart after).dayNumber hwell hfires.date honly
      refine none_in_window hadd hsearch hlt ?_ ?_ ⟨hfires.minute, hfires.hour, hon⟩
      · simp only [minuteNanos, OffsetDateTime.dayNumber, nanosPerDay, nanosPerMinute,
          nanosPerSecond] at *
        omega
      · simp only [minuteNanos, OffsetDateTime.dayNumber, nanosPerDay, nanosPerMinute,
          nanosPerSecond] at *
        omega

/-- A daily expression is never refused for good. -/
theorem daily_refusals_are_right :
    RefusedForGood dailyAtThree ⟨1788998340000000000, by decide, by decide⟩ :=
  (refused_for_good_iff "0 3 * * *".toList dailyAtThree
    ⟨1788998340000000000, by decide, by decide⟩ (by decide +kernel)).mpr
    (fun htooFar => absurd htooFar.only.byDayOfMonth (by decide))

/-- `0 0 29 2 *`. -/
def leapDayMidnight : Cron where
  minutes := [0]
  hours := [0]
  daysOfMonth := [29]
  months := [2]
  daysOfWeek := List.range 7
  domRestricted := true
  dowRestricted := false

example : Cron.parse "0 0 29 2 *".toList = .ok leapDayMidnight := by
  decide +kernel

/-- From 1 March 2096 on there is no 29 February in the window, and there is one in 2104. -/
theorem leap_day_across_a_century_is_refused :
    ¬ RefusedForGood leapDayMidnight ⟨3981398400000000000, by decide, by decide⟩ := by
  have hdates : ∀ k < 1465, ¬ ((dateOfDay (46081 + (k : Nat))).month = 2 ∧
      (dateOfDay (46081 + (k : Nat))).day = 29) := by
    rintro k hk ⟨hmonth, hday⟩
    obtain ⟨era, d, hd⟩ := exists_dayOf (46081 + k)
    obtain ⟨hmonth', hday'⟩ := dateOfDay_parts era d
    rw [← hd, hmonth'] at hmonth
    rw [← hd, hday'] at hday
    obtain ⟨c, q, y, n, hc, hq, hy, hn, hleap⟩ := d
    simp only [monthOfYear, dayOfMonth, dayOf, EraDay.dayOfEra] at hmonth hday hd hleap
    have hlast : n = 365 := by
      split at hmonth <;> omega
    obtain ⟨hyear, hcentury⟩ := hleap hlast
    have hera : era = 5 := by omega
    have hcenturies : c = 0 := by omega
    have hcycle : q ≠ 24 := fun h => absurd (hcentury h) (by omega)
    omega
  have htooFar : LeapDayTooFar leapDayMidnight ⟨3981398400000000000, by decide, by decide⟩ := by
    have hstart : (searchStart ⟨3981398400000000000, by decide, by decide⟩).nanos =
        3981398460000000000 := by
      decide
    have hwindow : searchWindow.nanos = 126489600000000000 := rfl
    refine ⟨⟨rfl, rfl, by decide, by decide, by decide⟩, ?_, ?_⟩
    · rw [hstart, hwindow]
      decide
    · intro day minuteOfDay hmonth hday hlt _ _ hfrom
      by_contra hto
      rw [hstart] at hfrom hto
      rw [hwindow] at hto
      simp only [minuteNanos, nanosPerDay, nanosPerMinute, nanosPerSecond] at hfrom hto
      have hk := hdates (day - 46081).toNat (by omega)
      rw [show (46081 : Int) + ((day - 46081).toNat : Nat) = day by omega] at hk
      exact hk ⟨hmonth, hday⟩
  have hwell : leapDayMidnight.WellFormed :=
    @Cron.wellFormed "0 0 29 2 *".toList _ (by decide +kernel)
  intro hgood
  refine hgood (refused_of_tooFar hwell htooFar) 49001 0 (by decide) (by decide) ?_
  refine ⟨by decide, by decide, by decide, ?_⟩
  unfold Cron.DayRule
  decide

end LeapDays

end Scheduler
end StudioWeb
