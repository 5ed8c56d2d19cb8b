import StudioWeb.Scheduler.FiringPlan
import StudioWeb.Scheduler.TaskQueue

/-!
# Writing, patching and firing a schedule

The row of `scheduler/entity.rs` and the service of `scheduler/service.rs`.

`create` and `patch` validate what they are given before they write.  A patch
reads the row, works out the columns it writes from what it read, and writes
them by id; `patchWrite` is the first half and `applyPatch` the second.  `fire`
works in three parts that a tick runs one after the other: `beginFire` parses
and plans the snapshot it was given, `fireInstant` handles one instant of the
plan, and `advance` writes the row.  The task queue answers an error at any
point of it, and then `fire` ends without its write.
-/

namespace StudioWeb
namespace Scheduler

open Rust CivilTime JsonText

/-- A row of `studio_scheduler_schedules`. -/
structure Schedule where
  id : Uuid
  tenantId : Uuid
  name : String
  taskType : String
  payload : Json
  expressionKind : String
  expression : String
  timezone : String
  concurrency : String
  missedPolicy : String
  maxCatchUpRuns : Int
  enabled : Bool
  nextRunAt : OffsetDateTime
  lastFiredAt : Option OffsetDateTime
  lastRunId : Option Uuid
  createdBy : Uuid
  createdAt : OffsetDateTime
  updatedAt : OffsetDateTime

/-- The checks of the table on the columns a patch writes. -/
def Schedule.checksHold (row : Schedule) : Bool :=
  ["cron", "interval"].contains row.expressionKind &&
    ["allow", "forbid", "replace"].contains row.concurrency &&
    ["skip", "catch_up", "backfill"].contains row.missedPolicy

structure NewSchedule where
  name : String
  taskType : String
  payload : Json
  expressionKind : String
  expression : String
  timezone : Option String
  concurrency : Option String
  missedPolicy : Option String
  maxCatchUpRuns : Option Int
  enabled : Bool

/-- The fields a patch may change; `none` leaves one alone. -/
structure ScheduleUpdate where
  expressionKind : Option String
  expression : Option String
  timezone : Option String
  concurrency : Option String
  missedPolicy : Option String
  maxCatchUpRuns : Option Int
  enabled : Option Bool
  payload : Option Json

/-- Whether an update asks for another cadence. -/
def ScheduleUpdate.changesCadence (patch : ScheduleUpdate) : Bool :=
  patch.expression.isSome || patch.expressionKind.isSome

/-- Validate an expression, a timezone and the two policies together. -/
def validate (registry : Registry) (taskType kind expression timezone concurrency missed : String) :
    Outcome (Expression × Concurrency × MissedPolicy) :=
  if registry.contains taskType then do
    checkTimezone timezone
    let expression ← Expression.parse kind expression
    let concurrency ← Concurrency.parse concurrency
    let missed ← MissedPolicy.parse missed
    .ok (expression, concurrency, missed)
  else
    noHandler registry taskType

/-- The form an expression is stored in. -/
def canonical (parsed : Expression) (raw : String) : String :=
  match parsed with
  | .interval gap => String.ofList (formatIso8601Duration gap.every)
  | .cron _ => String.ofList (trim raw.toList)

/-- `i16::clamp(1, 100)`. -/
def clampCatchUp (max : Int) : Int :=
  if max < 1 then 1 else if 100 < max then 100 else max

/-- `create`: the row of a new schedule. `taken` says whether its name is in
use. -/
def create (registry : Registry) (owner createdBy id : Uuid)
    (taken : String → Bool) (now : OffsetDateTime) (request : NewSchedule) :
    Outcome Schedule := do
  let name := String.ofList (trim request.name.toList)
  if name = "" then
    fail "a schedule needs a name"
  else
    let taskType := String.ofList (trim request.taskType.toList)
    let timezone := request.timezone.getD "UTC"
    let (expression, concurrency, missed) ← validate registry taskType
      request.expressionKind request.expression timezone
      (request.concurrency.getD "allow") (request.missedPolicy.getD "skip")
    if taken name then
      fail <| s!"a schedule named '{name}' already exists — patch it or pick " ++ "another name"
    else
      let nextRunAt ← expression.nextAfter now none
      .ok
        { id := id
          tenantId := owner
          name := name
          taskType := taskType
          payload := request.payload
          expressionKind :=
            String.ofList (toLowercase (trim request.expressionKind.toList))
          expression := canonical expression request.expression
          timezone := String.ofList (trim timezone.toList)
          concurrency := concurrency.asStr
          missedPolicy := missed.asStr
          maxCatchUpRuns := clampCatchUp (request.maxCatchUpRuns.getD 3)
          enabled := request.enabled
          nextRunAt := nextRunAt
          lastFiredAt := none
          lastRunId := none
          createdBy := createdBy
          createdAt := now
          updatedAt := now }

structure PatchWrite where
  expressionKind : String
  expression : String
  timezone : String
  concurrency : String
  missedPolicy : String
  nextRunAt : OffsetDateTime
  updatedAt : OffsetDateTime
  maxCatchUpRuns : Option Int
  enabled : Option Bool
  payload : Option Json

def patchNextRunAt (parsed : Expression) (existing : Schedule)
    (patch : ScheduleUpdate) (now : OffsetDateTime) : Outcome OffsetDateTime :=
  if patch.changesCadence then
    parsed.nextAfter now existing.lastFiredAt
  else
    .ok existing.nextRunAt

/-- What `patch` writes, worked out from the row it read, and the expression it
parsed on the way. -/
def patchWrite (registry : Registry) (existing : Schedule)
    (patch : ScheduleUpdate) (now : OffsetDateTime) :
    Outcome (Expression × PatchWrite) := do
  let kind := patch.expressionKind.getD existing.expressionKind
  let expression := patch.expression.getD existing.expression
  let timezone := patch.timezone.getD existing.timezone
  let concurrency := patch.concurrency.getD existing.concurrency
  let missed := patch.missedPolicy.getD existing.missedPolicy
  let (parsed, _, _) ←
    validate registry existing.taskType kind expression timezone concurrency missed
  let nextRunAt ← patchNextRunAt parsed existing patch now
  .ok (parsed,
    { expressionKind := kind
      expression := canonical parsed expression
      timezone := timezone
      concurrency := concurrency
      missedPolicy := missed
      nextRunAt := nextRunAt
      updatedAt := now
      maxCatchUpRuns := patch.maxCatchUpRuns.map clampCatchUp
      enabled := patch.enabled
      payload := patch.payload })

/-- The update statement of `patch`. -/
def Schedule.applyPatch (row : Schedule) (write : PatchWrite) : Schedule :=
  { row with
    expressionKind := write.expressionKind
    expression := write.expression
    timezone := write.timezone
    concurrency := write.concurrency
    missedPolicy := write.missedPolicy
    nextRunAt := write.nextRunAt
    updatedAt := write.updatedAt
    maxCatchUpRuns := write.maxCatchUpRuns.getD row.maxCatchUpRuns
    enabled := write.enabled.getD row.enabled
    payload := write.payload.getD row.payload }

/-- Whether the tick's query selects a row. -/
def Schedule.isDue (row : Schedule) (now : OffsetDateTime) : Bool :=
  row.enabled && decide (row.nextRunAt ≤ now)

/-- A number as text, with zeros in front up to a width. -/
def zeroPadded (width n : Nat) : List Char :=
  List.replicate (width - (Nat.toDigits 10 n).length) '0' ++ Nat.toDigits 10 n

/-- `format_instant`: RFC 3339 to the second. A year outside 0-9999 has no such
form, and the seconds since the epoch stand in. -/
def formatInstant (t : OffsetDateTime) : String :=
  let date := t.date
  if 0 ≤ date.year ∧ date.year ≤ 9999 then
    String.ofList <| zeroPadded 4 date.year.toNat ++ '-' :: zeroPadded 2 date.month ++
        '-' :: zeroPadded 2 date.day ++ 'T' :: zeroPadded 2 t.hour ++
        ':' :: zeroPadded 2 t.minute ++ ':' :: zeroPadded 2 t.second ++ ['Z']
  else
    toString t.unixTimestamp

/-- A `fire` under way. -/
structure Firing where
  schedule : Schedule
  now : OffsetDateTime
  expression : Expression
  concurrency : Concurrency
  remaining : List OffsetDateTime
  nextRunAt : OffsetDateTime
  created : List Uuid

/-- The start of `fire`: parse the snapshot and plan. -/
def beginFire (schedule : Schedule) (now : OffsetDateTime) : Outcome Firing := do
  let expression ← Expression.parse schedule.expressionKind schedule.expression
  let policy ← MissedPolicy.parse schedule.missedPolicy
  let concurrency ← Concurrency.parse schedule.concurrency
  let firings ← plan expression schedule.nextRunAt now policy schedule.maxCatchUpRuns
  .ok
    { schedule := schedule
      now := now
      expression := expression
      concurrency := concurrency
      remaining := firings.scheduledFor
      nextRunAt := firings.nextRunAt
      created := [] }

/-- The previous run the concurrency policy is judged against, when it has not
finished. -/
def Firing.unfinished (f : Firing) (owner : Uuid) (runs : RunTable) : Option Uuid :=
  match f.schedule.lastRunId with
  | none => none
  | some previous =>
    match runs.run owner previous with
    | none => none
    | some r => if r.state.isTerminal then none else some previous

def Firing.request (f : Firing) (owner : Uuid) (scheduledFor : OffsetDateTime) : NewRun :=
  { tenant := owner
    taskType := f.schedule.taskType
    payload := f.schedule.payload
    partitionKey := some f.schedule.id.text
    idempotencyKey := some (f.schedule.id.text ++ ":" ++ formatInstant scheduledFor) }

def Firing.enqueueInstant (registry : Registry) (owner : Uuid) (runs : RunTable)
    (f : Firing) (scheduledFor : OffsetDateTime) (rest : List OffsetDateTime)
    (fresh : Uuid) : Outcome (RunTable × Firing) := do
  let (runs, created) ← enqueue registry runs (f.request owner scheduledFor) fresh
  .ok (runs, { f with remaining := rest, created := f.created ++ [created] })

/-- One round of the loop of `fire`. A previous run that cannot be cancelled is
only reported. -/
def fireInstant (registry : Registry) (owner : Uuid) (runs : RunTable)
    (f : Firing) (fresh : Uuid) : Outcome (RunTable × Firing) :=
  match f.remaining with
  | [] => .ok (runs, f)
  | scheduledFor :: rest =>
    match f.concurrency, f.unfinished owner runs with
    | .forbid, some _ => .ok (runs, { f with remaining := rest })
    | .replace, some previous =>
      let runs :=
        match runs.requestCancel owner previous with
        | .ok runs => runs
        | .error _ => runs
      f.enqueueInstant registry owner runs scheduledFor rest fresh
    | _, _ => f.enqueueInstant registry owner runs scheduledFor rest fresh

/-- The update statement of `fire`, once no instant remains. -/
def Schedule.advance (row : Schedule) (f : Firing) : Schedule :=
  match f.created.getLast? with
  | none => { row with nextRunAt := f.nextRunAt, updatedAt := f.now }
  | some last =>
    { row with
      nextRunAt := f.nextRunAt
      updatedAt := f.now
      lastFiredAt := some f.now
      lastRunId := some last }

end Scheduler
end StudioWeb
