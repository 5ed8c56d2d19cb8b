import StudioWeb.Library.LabelledRuns
import StudioWeb.Scheduler.CanonicalForm

/-!
# One schedule, its ticks and its patches

The transition system of one stored schedule.  A tick reads the row, fires the
instants of its plan one by one and writes the row by id; a patch reads the row
and writes its columns by id; and the queue moves the runs on.  Ticks hold an
advisory lock, so at most one is under way, and the claims about patches are
about one at a time.  Every read, enqueue and write is one step, and any other
party may act in between.

Three fields of the state are not stored anywhere.  `fired` lists the runs that
`fire` inserted, `patched` is the last patch that was written, and `cadence` is
the expression that the stored `next_run_at` was computed from.
-/

namespace StudioWeb
namespace Scheduler

open Rust CivilTime LabelledRuns Option

/-- What is the same in every step. -/
structure Deployment where
  registry : Registry
  owner : Uuid

/-- A `patch` between its read and its write. -/
structure Patching where
  existing : Schedule
  update : ScheduleUpdate
  cadence : Expression

structure World where
  row : Schedule
  runs : RunTable
  firing : Option Firing
  patching : Option Patching
  patched : Option ScheduleUpdate
  fired : List Uuid
  cadence : Expression

inductive Action where
  | tickBegins (now : OffsetDateTime)
  | tickFires (fresh : Uuid)
  | tickFails
  | tickEnds
  | patchReads (update : ScheduleUpdate)
  | patchWrites (now : OffsetDateTime)
  | patchFails
  | runBecomes (id : Uuid) (state : RunState)
  | runPruned (id : Uuid)

/-- The ids of the rows that a table has beyond an earlier one. -/
def RunTable.added (before after : RunTable) : List Uuid :=
  (after.rows.drop before.rows.length).map Run.id

section Steps

variable (d : Deployment) (w : World)

def World.tickBegins (now : OffsetDateTime) : Option World :=
  if w.firing.isNone ∧ w.row.isDue now then
    match beginFire w.row now with
    | .ok f => some { w with firing := some f }
    | .error _ => some w
  else
    none

def World.tickFires (fresh : Uuid) : Option World :=
  match w.firing with
  | none => none
  | some f =>
    if f.remaining = [] then
      none
    else
      match fireInstant d.registry d.owner w.runs f fresh with
      | .ok (runs, f) =>
        some
          { w with
            runs := runs
            firing := some f
            fired := w.fired ++ w.runs.added runs }
      | .error _ => some { w with firing := none }

def World.tickFails : Option World :=
  if w.firing.isSome then some { w with firing := none } else none

def World.tickEnds : Option World :=
  match w.firing with
  | none => none
  | some f =>
    if f.remaining = [] then
      some
        { w with
          row := w.row.advance f
          firing := none
          cadence := f.expression }
    else
      none

def World.patchReads (update : ScheduleUpdate) : Option World :=
  if w.patching.isNone then
    some { w with patching := some ⟨w.row, update, w.cadence⟩ }
  else
    none

def World.patchWrites (now : OffsetDateTime) : Option World :=
  match w.patching with
  | none => none
  | some p =>
    match patchWrite d.registry p.existing p.update now with
    | .error _ => some { w with patching := none }
    | .ok (parsed, write) =>
      if (w.row.applyPatch write).checksHold then
        some
          { w with
            row := w.row.applyPatch write
            patching := none
            patched := some p.update
            cadence := if p.update.changesCadence then parsed else p.cadence }
      else
        some { w with patching := none }

def World.patchFails : Option World :=
  if w.patching.isSome then some { w with patching := none } else none

end Steps

def step (d : Deployment) (w : World) : Action → Option World
  | .tickBegins now => w.tickBegins now
  | .tickFires fresh => w.tickFires d fresh
  | .tickFails => w.tickFails
  | .tickEnds => w.tickEnds
  | .patchReads update => w.patchReads update
  | .patchWrites now => w.patchWrites d now
  | .patchFails => w.patchFails
  | .runBecomes id state => some { w with runs := w.runs.setState id state }
  | .runPruned id => some { w with runs := w.runs.prune id }

section StepCases

variable {d : Deployment} {w t : World}

theorem tickBegins_cases {now : OffsetDateTime} (h : w.tickBegins now = some t) :
    w.firing = none ∧ (t = w ∨
        ∃ f, beginFire w.row now = .ok f ∧ t = { w with firing := some f }) := by
  unfold World.tickBegins at h
  split_ifs at h with hdue
  have hidle : w.firing = none := by simpa using hdue.1
  refine ⟨hidle, ?_⟩
  cases hbegin : beginFire w.row now with
  | error =>
    rw [hbegin] at h
    exact Or.inl (some.inj h).symm
  | ok f =>
    rw [hbegin] at h
    exact Or.inr ⟨f, rfl, (some.inj h).symm⟩

theorem tickFires_cases {fresh : Uuid} (h : w.tickFires d fresh = some t) :
    ∃ f, w.firing = some f ∧ f.remaining ≠ [] ∧ (t = { w with firing := none } ∨
        ∃ runs f', fireInstant d.registry d.owner w.runs f fresh = .ok (runs, f') ∧
          t = { w with
            runs := runs
            firing := some f'
            fired := w.fired ++ w.runs.added runs }) := by
  unfold World.tickFires at h
  cases hfiring : w.firing with
  | none =>
    rw [hfiring] at h
    cases h
  | some f =>
    rw [hfiring] at h
    dsimp only at h
    split_ifs at h with hempty
    refine ⟨f, rfl, hempty, ?_⟩
    cases hfire : fireInstant d.registry d.owner w.runs f fresh with
    | error =>
      rw [hfire] at h
      exact Or.inl (some.inj h).symm
    | ok result =>
      rw [hfire] at h
      exact Or.inr ⟨result.1, result.2, rfl, (some.inj h).symm⟩

theorem tickFails_cases (h : w.tickFails = some t) :
    ∃ f, w.firing = some f ∧ t = { w with firing := none } := by
  unfold World.tickFails at h
  split_ifs at h with hsome
  obtain ⟨f, hf⟩ := isSome_iff_exists.mp hsome
  exact ⟨f, hf, (some.inj h).symm⟩

theorem tickEnds_cases (h : w.tickEnds = some t) :
    ∃ f, w.firing = some f ∧ f.remaining = [] ∧
      t = { w with
        row := w.row.advance f
        firing := none
        cadence := f.expression } := by
  unfold World.tickEnds at h
  cases hfiring : w.firing with
  | none =>
    rw [hfiring] at h
    cases h
  | some f =>
    rw [hfiring] at h
    dsimp only at h
    split_ifs at h with hempty
    exact ⟨f, rfl, hempty, (some.inj h).symm⟩

theorem patchReads_cases {update : ScheduleUpdate} (h : w.patchReads update = some t) :
    w.patching = none ∧
      t = { w with patching := some ⟨w.row, update, w.cadence⟩ } := by
  unfold World.patchReads at h
  split_ifs at h with hidle
  exact ⟨by simpa using hidle, (some.inj h).symm⟩

theorem patchWrites_cases {now : OffsetDateTime} (h : w.patchWrites d now = some t) :
    ∃ p, w.patching = some p ∧ (t = { w with patching := none } ∨ ∃ parsed write,
          patchWrite d.registry p.existing p.update now = .ok (parsed, write) ∧
          t = { w with
            row := w.row.applyPatch write
            patching := none
            patched := some p.update
            cadence := if p.update.changesCadence then parsed else p.cadence }) := by
  unfold World.patchWrites at h
  cases hpatching : w.patching with
  | none =>
    rw [hpatching] at h
    cases h
  | some p =>
    rw [hpatching] at h
    dsimp only at h
    refine ⟨p, rfl, ?_⟩
    cases hwrite : patchWrite d.registry p.existing p.update now with
    | error =>
      rw [hwrite] at h
      exact Or.inl (some.inj h).symm
    | ok result =>
      obtain ⟨parsed, write⟩ := result
      rw [hwrite] at h
      dsimp only at h
      by_cases hchecks : (w.row.applyPatch write).checksHold = true
      · rw [if_pos hchecks] at h
        exact Or.inr ⟨parsed, write, rfl, (some.inj h).symm⟩
      · rw [if_neg hchecks] at h
        exact Or.inl (some.inj h).symm

theorem patchFails_cases (h : w.patchFails = some t) : t = { w with patching := none } := by
  unfold World.patchFails at h
  split_ifs at h
  exact (some.inj h).symm

end StepCases

section FireInstant

variable {registry : Registry} {owner fresh : Uuid}
variable {runs after : RunTable} {f f' : Firing}

theorem enqueueInstant_cases {scheduledFor : OffsetDateTime} {rest : List OffsetDateTime}
    (h : f.enqueueInstant registry owner runs scheduledFor rest fresh = .ok (after, f')) :
    ∃ created, enqueue registry runs (f.request owner scheduledFor) fresh = .ok (after, created) ∧
      f' = { f with remaining := rest, created := f.created ++ [created] } := by
  obtain ⟨⟨runs', created⟩, henqueue, hf'⟩ := bind_eq_ok_iff.mp h
  cases hf'
  exact ⟨created, henqueue, rfl⟩

/-- One round of the loop under `forbid`: it skips the instant while the previous
run is going, and enqueues it otherwise. -/
theorem fireInstant_forbid {scheduledFor : OffsetDateTime} {rest : List OffsetDateTime}
    (hforbid : f.concurrency = .forbid) (hremaining : f.remaining = scheduledFor :: rest)
    (h : fireInstant registry owner runs f fresh = .ok (after, f')) :
    ((f.unfinished owner runs).isSome ∧ after = runs ∧ f' = { f with remaining := rest }) ∨
      (f.unfinished owner runs = none ∧ ∃ created,
          enqueue registry runs (f.request owner scheduledFor) fresh = .ok (after, created) ∧
          f' = { f with remaining := rest, created := f.created ++ [created] }) := by
  unfold fireInstant at h
  rw [hremaining] at h
  dsimp only at h
  rw [hforbid] at h
  cases hunfinished : f.unfinished owner runs with
  | some =>
    rw [hunfinished] at h
    cases h
    exact Or.inl ⟨rfl, rfl, by rw [hforbid]⟩
  | none =>
    rw [hunfinished] at h
    exact Or.inr ⟨rfl, enqueueInstant_cases h⟩

/-- What one round of the loop leaves alone, and the instant it takes off. -/
theorem fireInstant_frame (h : fireInstant registry owner runs f fresh = .ok (after, f')) :
    f'.schedule = f.schedule ∧ f'.expression = f.expression ∧
      f'.nextRunAt = f.nextRunAt ∧ f'.remaining = f.remaining.tail := by
  unfold fireInstant at h
  split at h
  · next hremaining =>
    cases h
    simp [hremaining]
  · next hremaining =>
    rw [hremaining, List.tail_cons]
    split at h
    · cases h
      exact ⟨rfl, rfl, rfl, rfl⟩
    · obtain ⟨created, _, rfl⟩ := enqueueInstant_cases h
      exact ⟨rfl, rfl, rfl, rfl⟩
    · obtain ⟨created, _, rfl⟩ := enqueueInstant_cases h
      exact ⟨rfl, rfl, rfl, rfl⟩

theorem beginFire_eq_ok {row : Schedule} {now : OffsetDateTime} (h : beginFire row now = .ok f) :
    ∃ policy firings, Expression.parse row.expressionKind row.expression = .ok f.expression ∧
      MissedPolicy.parse row.missedPolicy = .ok policy ∧
      Concurrency.parse row.concurrency = .ok f.concurrency ∧
      plan f.expression row.nextRunAt now policy row.maxCatchUpRuns = .ok firings ∧
      f.schedule = row ∧ f.remaining = firings.scheduledFor ∧
      f.nextRunAt = firings.nextRunAt ∧ f.created = [] := by
  obtain ⟨expression, hexpression, h⟩ := bind_eq_ok_iff.mp h
  obtain ⟨policy, hpolicy, h⟩ := bind_eq_ok_iff.mp h
  obtain ⟨concurrency, hconcurrency, h⟩ := bind_eq_ok_iff.mp h
  obtain ⟨firings, hplan, h⟩ := bind_eq_ok_iff.mp h
  cases h
  exact ⟨policy, firings, hexpression, hpolicy, hconcurrency, hplan,
    rfl, rfl, rfl, rfl⟩

end FireInstant

section Sequential

variable {d : Deployment}

end Sequential

def uuid (text : String) : Uuid := ⟨text⟩

def minutelyBackfill : Schedule :=
  { id := uuid "s"
    tenantId := uuid "root"
    name := "sweep"
    taskType := "tasks.retention_sweep"
    payload := .null
    expressionKind := "interval"
    expression := "PT1M"
    timezone := "UTC"
    concurrency := "forbid"
    missedPolicy := "backfill"
    maxCatchUpRuns := 3
    enabled := true
    nextRunAt := epoch
    lastFiredAt := none
    lastRunId := none
    createdBy := uuid "op"
    createdAt := epoch
    updatedAt := epoch }

def platform : Deployment :=
  { registry := ["tasks.retention_sweep"], owner := uuid "root" }

/-- A schedule nothing has happened to yet. -/
def World.start (row : Schedule) (cadence : Expression) : World :=
  { row := row
    runs := ⟨[], List.nodup_nil⟩
    firing := none
    patching := none
    patched := none
    fired := []
    cadence := cadence }

end Scheduler
end StudioWeb
