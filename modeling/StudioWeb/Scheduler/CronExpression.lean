import StudioWeb.Library.CivilTime
import Mathlib.Data.List.Sort

/-!
# Schedule expressions: a 5-field cron and an ISO-8601 interval

The parser and the evaluator of `scheduler/cron.rs`.  A text is parsed into an
`Expression`, and `Expression.nextAfter` answers the next firing.

An interval carries the proof that it is at least a minute long, which is the
last thing `parse_iso8601_duration` checks; a cron is the five sets of values
its fields allow, and whether the two day fields are restricted.

The search of a cron walks minute by minute, skips a day whose date cannot match,
and gives up after four years.  It is a recursion on the minutes still allowed;
`search_fuel` shows that the walk always ends by the search's own tests, before
that count runs out.
-/

namespace StudioWeb
namespace Scheduler

open Rust CivilTime

/-- A parsed 5-field cron expression: each field is the set of values it allows. -/
structure Cron where
  minutes : List Nat
  hours : List Nat
  daysOfMonth : List Nat
  months : List Nat
  daysOfWeek : List Nat
  domRestricted : Bool
  dowRestricted : Bool
deriving DecidableEq

/-- A fixed gap between firings; shorter than a minute is refused. -/
structure Interval where
  every : Duration
  minute_le : 60 ≤ every.wholeSeconds
deriving DecidableEq

/-- How often a schedule fires. -/
inductive Expression where
  | cron (fields : Cron)
  | interval (gap : Interval)
deriving DecidableEq

/-- One number of a cron field, inside its bounds. -/
def parseIn (raw : List Char) (min max : Nat) (name : String) : Outcome Nat :=
  match parseUnsigned 255 (trim raw) with
  | none => fail s!"'{String.ofList raw}' is not a number in the {name} field"
  | some value =>
    if value < min ∨ max < value then
      fail s!"{value} is outside {min}-{max} in the {name} field"
    else
      .ok value

/-- The values `value, value + step, ...` up to `last`. A `u8` saturates at 255. -/
def stepValues (step last : Nat) : Nat → Nat → List Nat
  | 0, _ => []
  | fuel + 1, value =>
    if value ≤ last then
      value :: stepValues step last fuel (Nat.min 255 (value + step))
    else
      []

def fieldStep (part : List Char) (name : String) : Outcome (List Char × Nat) :=
  match splitOnce '/' part with
  | none => .ok (part, 1)
  | some (range, step) =>
    match parseUnsigned 255 (trim step) with
    | none => fail s!"'{String.ofList step}' is not a step for the {name} field"
    | some 0 => fail s!"a step of 0 in the {name} field never fires"
    | some value => .ok (range, value)

/-- The bounds a range stands for. `5/15` means "from 5, every 15". -/
def fieldBounds (range : List Char) (step min max : Nat) (name : String) : Outcome (Nat × Nat) :=
  if range = ['*'] then
    .ok (min, max)
  else
    match splitOnce '-' range with
    | some (first, last) => do
      let first ← parseIn first min max name
      let last ← parseIn last min max name
      .ok (first, last)
    | none => do
      let one ← parseIn range min max name
      if step = 1 then .ok (one, one) else .ok (one, max)

def fieldPart (part : List Char) (min max : Nat) (name : String) :
    Outcome (List Nat) := do
  if trim part = [] then
    fail s!"empty {name} field in a cron expression"
  else
    let (range, step) ← fieldStep (trim part) name
    let (first, last) ← fieldBounds range step min max name
    if last < first then
      fail s!"the {name} range {first}-{last} runs backwards"
    else
      .ok (stepValues step last 256 first)

/-- One cron field: the sorted union of its comma-separated parts. -/
def field (raw : List Char) (min max : Nat) (name : String) :
    Outcome (List Nat) := do
  let parts ← ((trim raw).splitOn ',').mapM (fun part => fieldPart part min max name)
  .ok (parts.flatten.insertionSort (· ≤ ·)).dedup

def Cron.parse (expression : List Char) : Outcome Cron :=
  match splitWhitespace expression with
  | [minute, hour, dayOfMonth, month, dayOfWeek] => do
    let minutes ← field minute 0 59 "minute"
    let hours ← field hour 0 23 "hour"
    let daysOfMonth ← field dayOfMonth 1 31 "day-of-month"
    let months ← field month 1 12 "month"
    let daysOfWeek ← field dayOfWeek 0 6 "day-of-week"
    .ok
      { minutes := minutes
        hours := hours
        daysOfMonth := daysOfMonth
        months := months
        daysOfWeek := daysOfWeek
        domRestricted := trim dayOfMonth != ['*']
        dowRestricted := trim dayOfWeek != ['*'] }
  | fields =>
    fail <| "a cron expression has 5 fields — minute hour day-of-month month " ++
        s!"day-of-week — got {fields.length} in '{String.ofList expression}'"

/-- Whether a date's day matches, applying cron's OR rule. -/
def Cron.dayMatches (cron : Cron) (dayOfMonth dayOfWeek : Nat) : Bool :=
  let dom := cron.daysOfMonth.contains dayOfMonth
  let dow := cron.daysOfWeek.contains dayOfWeek
  match cron.domRestricted, cron.dowRestricted with
  | true, true => dom || dow
  | true, false => dom
  | false, true => dow
  | false, false => true

/-- Whether the date of an instant can match. -/
def Cron.dateMatches (cron : Cron) (at_ : OffsetDateTime) : Bool :=
  cron.months.contains at_.date.month && cron.dayMatches at_.date.day at_.weekday

/-- Whether the time of day of an instant matches. -/
def Cron.timeMatches (cron : Cron) (at_ : OffsetDateTime) : Bool :=
  cron.hours.contains at_.hour && cron.minutes.contains at_.minute

/-- How far ahead a firing is looked for. -/
def maxDays : Nat := 366 * 4

def neverMatches : String :=
  s!"this cron expression has no next firing within {maxDays / 366} years — " ++
    "it can never match"

/-- A duration of one minute, and of the days the search looks ahead. -/
def oneMinute : Duration := ⟨60, by decide, by decide⟩

def searchWindow : Duration := ⟨maxDays * 86400, by decide, by decide⟩

/-- The walk of `Cron::next_after` from `at_` until `giveUp`. -/
def Cron.search (cron : Cron) (giveUp : OffsetDateTime) :
    Nat → OffsetDateTime → Outcome OffsetDateTime
  | 0, _ => fail neverMatches
  | fuel + 1, at_ =>
    if at_ ≤ giveUp then
      if cron.dateMatches at_ then
        if cron.timeMatches at_ then
          .ok at_
        else do
          let next ← at_.add oneMinute
          cron.search giveUp fuel next
      else do
        let next ← at_.nextMidnight
        cron.search giveUp fuel next
    else
      fail neverMatches

/-- The minutes of the search window, its last one included. -/
def searchMinutes : Nat := maxDays * 1440 + 1

/-- The first matching minute strictly after `after`. -/
def Cron.nextAfter (cron : Cron) (after : OffsetDateTime) :
    Outcome OffsetDateTime := do
  let start := after.startOfMinute.saturatingAddMinute
  let giveUp ← start.add searchWindow
  cron.search giveUp searchMinutes start

/-- The first firing strictly after `after`; an interval measures from the
previous firing. -/
def Expression.nextAfter (expression : Expression) (after : OffsetDateTime)
    (lastFired : Option OffsetDateTime) : Outcome OffsetDateTime :=
  match expression with
  | .cron fields => fields.nextAfter after
  | .interval gap => (lastFired.getD after).add gap.every

/-- What the unit loop of `parse_iso8601_duration` carries along. -/
structure DurationScan where
  number : List Char
  total : Duration
  seenAny : Bool

def unitDuration (unit : Char) (value : Int) : Outcome Duration :=
  match unit with
  | 'W' => Duration.weeks value
  | 'D' => Duration.days value
  | 'H' => Duration.hours value
  | 'M' => Duration.minutes value
  | _ => Duration.seconds value

/-- One character of a part whose units are `units`. -/
def scanDurationChar (raw : List Char) (units : List Char)
    (scan : DurationScan) (ch : Char) : Outcome DurationScan :=
  if ch.isDigit then
    .ok { scan with number := scan.number ++ [ch] }
  else if !units.contains ch then
    fail s!"'{String.ofList raw}' has an unexpected '{ch}'"
  else
    match parseDigits i64Max.toNat scan.number with
    | none => fail s!"'{String.ofList raw}' has a '{ch}' with no number before it"
    | some value => do
      let length ← unitDuration ch value
      let total ← scan.total.add length
      .ok { number := [], total := total, seenAny := true }

/-- Whether the text after `P` names years, or months outside its time part. -/
def namesMonthsOrYears (rest : List Char) : Bool :=
  rest.contains 'Y' || (rest.contains 'M' &&
      !((rest.splitOn 'T')[1]?.any (fun timePart => timePart.contains 'M')))

/-- `parse_iso8601_duration`. The number a part ends with is carried over into
the next part. -/
def parseIso8601Duration (raw : List Char) : Outcome Interval := do
  let text := toUppercase (trim raw)
  match stripPrefix ['P'] text with
  | none =>
    fail <| s!"'{String.ofList raw}' is not an ISO-8601 duration — " ++
      "it must start with P (e.g. PT15M)"
  | some rest =>
    if namesMonthsOrYears rest then
      fail <| s!"'{String.ofList raw}' uses months or years, which are not " ++
        "fixed lengths — express that as a cron expression instead"
    else
      let (datePart, timePart) := (splitOnce 'T' rest).getD (rest, [])
      let scan ← datePart.foldlM (scanDurationChar raw ['D', 'W'])
        { number := [], total := Duration.zero, seenAny := false }
      let scan ← timePart.foldlM (scanDurationChar raw ['H', 'M', 'S']) scan
      if scan.number ≠ [] then
        fail s!"'{String.ofList raw}' ends with a number and no unit"
      else if !scan.seenAny then
        fail s!"'{String.ofList raw}' names no duration at all"
      else if h : 60 ≤ scan.total.wholeSeconds then
        .ok ⟨scan.total, h⟩
      else
        fail <| s!"'{String.ofList raw}' is shorter than a minute; " ++
          "the shortest interval is PT1M"

/-- `Expression::parse`: the `kind` and `value` the API and the row carry. -/
def Expression.parse (kind value : String) : Outcome Expression :=
  match String.ofList (toLowercase (trim kind.toList)) with
  | "cron" => do
    let fields ← Cron.parse value.toList
    .ok (.cron fields)
  | "interval" => do
    let gap ← parseIso8601Duration value.toList
    .ok (.interval gap)
  | other => fail s!"unknown expression kind '{other}' (expected cron | interval)"

/-- Decimal digits without leading zeros. -/
def decimal (n : Nat) : List Char := Nat.toDigits 10 n

def formatIso8601Duration (d : Duration) : List Char :=
  let total := (max 0 d.wholeSeconds).toNat
  let days := total / 86400
  let hours := total % 86400 / 3600
  let minutes := total % 3600 / 60
  let seconds := total % 60
  let unit (n : Nat) (name : Char) : List Char :=
    if 0 < n then decimal n ++ [name] else []
  let time :=
    if 0 < hours ∨ 0 < minutes ∨ 0 < seconds then
      'T' :: (unit hours 'H' ++ unit minutes 'M' ++ unit seconds 'S')
    else
      []
  let out := 'P' :: (unit days 'D' ++ time)
  if out = ['P'] then ['P', 'T', '0', 'S'] else out

/-- `check_timezone`: `UTC` and `Etc/UTC`, in any ASCII case. -/
def checkTimezone (timezone : String) : Outcome Unit :=
  let tz := trim timezone.toList
  let lower := tz.map Char.toLower
  if lower = "utc".toList ∨ lower = "etc/utc".toList then
    .ok ()
  else
    fail <| s!"timezone '{String.ofList tz}' is not supported yet — schedules are " ++
        "evaluated in UTC. A local schedule needs a tz database to handle the " ++
        "hours that repeat or do not exist at a DST boundary, and quietly " ++
        s!"treating '{String.ofList tz}' as UTC would make a daily job run at " ++
        "the wrong time for half the year"

section SearchOrder

variable {cron : Cron} {giveUp : OffsetDateTime}

theorem lt_of_add_oneMinute {t u : OffsetDateTime} (h : t.add oneMinute = .ok u) : t < u := by
  have hu := OffsetDateTime.add_eq_ok_iff.mp h
  rw [OffsetDateTime.lt_def, hu]
  simp only [oneMinute, Duration.nanos, nanosPerSecond]
  omega

theorem search_ge :
    ∀ (fuel : Nat) {at_ t : OffsetDateTime}, cron.search giveUp fuel at_ = .ok t → at_ ≤ t
  | 0, at_, t, h => by
    simp [Cron.search, fail] at h
  | fuel + 1, at_, t, h => by
    simp only [Cron.search] at h
    split_ifs at h with hle hdate htime
    · cases h
      exact le_refl at_.nanos
    · obtain ⟨next, hnext, hrest⟩ := bind_eq_ok_iff.mp h
      have hlt := lt_of_add_oneMinute hnext
      have hge := search_ge fuel hrest
      rw [OffsetDateTime.lt_def] at hlt
      rw [OffsetDateTime.le_def] at hge ⊢
      omega
    · obtain ⟨next, hnext, hrest⟩ := bind_eq_ok_iff.mp h
      have hlt := lt_of_nextMidnight hnext
      have hge := search_ge fuel hrest
      rw [OffsetDateTime.lt_def] at hlt
      rw [OffsetDateTime.le_def] at hge ⊢
      omega
    · simp [fail] at h

theorem Cron.nextAfter_gt {after t : OffsetDateTime} (h : cron.nextAfter after = .ok t) :
    after < t := by
  obtain ⟨limit, hlimit, hsearch⟩ := bind_eq_ok_iff.mp h
  have hge := search_ge searchMinutes hsearch
  rcases lt_saturatingAddMinute_startOfMinute after with hlt | hmax
  · rw [OffsetDateTime.lt_def] at hlt ⊢
    rw [OffsetDateTime.le_def] at hge
    omega
  · -- at the end of the range the window itself overflows
    have hwindow := OffsetDateTime.add_eq_ok_iff.mp hlimit
    have hbound := limit.le_max
    simp only [searchWindow, Duration.nanos, maxDays, nanosPerSecond] at hwindow
    omega

/-- The minutes from `at_` to `giveUp`, both included. -/
def minutesLeft (giveUp at_ : OffsetDateTime) : Int :=
  (giveUp.nanos - at_.nanos) / nanosPerMinute + 1

theorem nextMidnight_ge_minute {t u : OffsetDateTime} (hwhole : t.nanos % nanosPerMinute = 0)
    (h : t.nextMidnight = .ok u) :
    t.nanos + nanosPerMinute ≤ u.nanos ∧ u.nanos % nanosPerMinute = 0 := by
  have hu := OffsetDateTime.ofNanos_eq_ok_iff.mp h
  simp only [OffsetDateTime.dayNumber, nanosPerDay, nanosPerMinute, nanosPerSecond] at *
  omega

/-- **The walk ends by its own tests**: once the count covers the minutes left,
a larger count changes nothing. -/
theorem search_fuel :
    ∀ (fuel : Nat) (at_ : OffsetDateTime), at_.nanos % nanosPerMinute = 0 →
      minutesLeft giveUp at_ ≤ fuel →
      cron.search giveUp (fuel + 1) at_ = cron.search giveUp fuel at_
  | 0, at_, _, hleft => by
    have hgone : ¬ at_ ≤ giveUp := by
      rw [OffsetDateTime.le_def]
      simp only [minutesLeft, nanosPerMinute, nanosPerSecond] at hleft
      omega
    simp [Cron.search, hgone]
  | fuel + 1, at_, hwhole, hleft => by
    have hstep :
        ∀ next : OffsetDateTime, at_.nanos + nanosPerMinute ≤ next.nanos →
          next.nanos % nanosPerMinute = 0 →
          cron.search giveUp (fuel + 1) next = cron.search giveUp fuel next := by
      intro next hnext hwhole'
      apply search_fuel fuel next hwhole'
      simp only [minutesLeft, nanosPerMinute, nanosPerSecond] at *
      omega
    have hminute :
        (at_.add oneMinute >>= fun next => cron.search giveUp (fuel + 1) next) =
          (at_.add oneMinute >>= fun next => cron.search giveUp fuel next) := by
      cases hadd : at_.add oneMinute with
      | error => rfl
      | ok next =>
        have hu := OffsetDateTime.add_eq_ok_iff.mp hadd
        simp only [oneMinute, Duration.nanos] at hu
        exact hstep next (by simp only [nanosPerMinute, nanosPerSecond] at *; omega)
          (by simp only [nanosPerMinute, nanosPerSecond] at *; omega)
    have hday :
        (at_.nextMidnight >>= fun next => cron.search giveUp (fuel + 1) next) =
          (at_.nextMidnight >>= fun next => cron.search giveUp fuel next) := by
      cases hmid : at_.nextMidnight with
      | error => rfl
      | ok next =>
        obtain ⟨hge, hwhole'⟩ := nextMidnight_ge_minute hwhole hmid
        exact hstep next hge hwhole'
    rw [Cron.search, hminute, hday]
    rfl

theorem minutesLeft_le_searchMinutes {start : OffsetDateTime}
    (h : start.add searchWindow = .ok giveUp) :
    minutesLeft giveUp start ≤ (searchMinutes : Int) := by
  have hg := OffsetDateTime.add_eq_ok_iff.mp h
  have hminutes : searchMinutes = 2108161 := rfl
  have hwindow : searchWindow.wholeSeconds = 126489600 := rfl
  rw [Duration.nanos, hwindow] at hg
  rw [hminutes]
  simp only [minutesLeft, nanosPerMinute, nanosPerSecond] at *
  omega

end SearchOrder

end Scheduler
end StudioWeb
