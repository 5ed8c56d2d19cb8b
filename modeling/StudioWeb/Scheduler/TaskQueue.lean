import StudioWeb.Library.RustPrelude
import StudioWeb.Library.JsonText
import Mathlib.Data.List.Nodup

/-!
# The task queue a schedule enqueues into

The part of `studio-tasks` that the scheduler calls: the run table, `run`,
`request_cancel` and `enqueue`.  A run is found by its id, and a repeated
enqueue by its idempotency key, which answers the run that already has the key.

The scheduler never asks for a queued run to be joined, so `enqueue` is modelled
for `coalesce_queued: false`.
-/

namespace StudioWeb
namespace Scheduler

open Rust JsonText List

/-- An id, by its hyphenated text. -/
structure Uuid where
  text : String
deriving DecidableEq

inductive RunState where
  | queued
  | running
  | succeeded
  | failed
  | cancelled
deriving DecidableEq

def RunState.asStr : RunState → String
  | .queued => "queued"
  | .running => "running"
  | .succeeded => "succeeded"
  | .failed => "failed"
  | .cancelled => "cancelled"

/-- Whether the run is over. -/
def RunState.isTerminal : RunState → Bool
  | .queued => false
  | .running => false
  | .succeeded => true
  | .failed => true
  | .cancelled => true

/-- A row of the run table. -/
structure Run where
  id : Uuid
  tenantId : Uuid
  taskType : String
  payload : Json
  partitionKey : Option String
  state : RunState
  cancelRequested : Bool
  idempotencyKey : Option String

/-- One request to run something. -/
structure NewRun where
  tenant : Uuid
  taskType : String
  payload : Json
  partitionKey : Option String
  idempotencyKey : Option String

/-- The run table: `id` is its primary key. -/
structure RunTable where
  rows : List Run
  ids_nodup : (rows.map Run.id).Nodup

namespace RunTable

/-- `TaskQueue::run`: the run of a tenant with an id. -/
def run (runs : RunTable) (tenant id : Uuid) : Option Run :=
  runs.rows.find? (fun r => r.id = id ∧ r.tenantId = tenant)

def findByIdempotencyKey (runs : RunTable) (tenant : Uuid) (key : String) : Option Run :=
  runs.rows.find? (fun r => r.tenantId = tenant ∧ r.idempotencyKey = some key)

/-- An insert: the table refuses a second row with one id. -/
def insert (runs : RunTable) (r : Run) : Outcome RunTable :=
  if h : r.id ∈ runs.rows.map Run.id then
    fail "duplicate key value violates unique constraint"
  else
    .ok ⟨runs.rows ++ [r], by
      rw [map_append]
      exact nodup_append.mpr ⟨runs.ids_nodup, nodup_singleton _, fun a ha b hb hab =>
          h (by rw [mem_singleton.mp hb] at hab; exact hab ▸ ha)⟩⟩

def update (runs : RunTable) (f : Run → Run) (hid : ∀ r, (f r).id = r.id) : RunTable :=
  ⟨runs.rows.map f, by
    have hids : (runs.rows.map f).map Run.id = runs.rows.map Run.id := by
      simp [hid]
    rw [hids]
    exact runs.ids_nodup⟩

/-- The state of a run that is not over becomes another one. -/
def setState (runs : RunTable) (id : Uuid) (state : RunState) : RunTable :=
  runs.update (fun r => if r.id = id ∧ !r.state.isTerminal then { r with state := state } else r)
    (fun r => by split <;> rfl)

/-- The retention sweep deletes a run that is over. -/
def prune (runs : RunTable) (id : Uuid) : RunTable :=
  ⟨runs.rows.filter (fun r => !(r.id = id && r.state.isTerminal)), by
    exact runs.ids_nodup.sublist (filter_sublist.map Run.id)⟩

/-- `TaskQueue::request_cancel`: a flag on a run that is not over. -/
def requestCancel (runs : RunTable) (tenant id : Uuid) : Outcome RunTable :=
  match runs.run tenant id with
  | none => fail s!"run {id.text} not found"
  | some r =>
    if r.state.isTerminal then
      fail <| s!"run {id.text} already finished as '{r.state.asStr}' — " ++
        "there is nothing to cancel"
    else
      .ok <| runs.update (fun r =>
          if r.id = id ∧ r.tenantId = tenant then
            { r with cancelRequested := true }
          else
            r)
        (fun r => by split <;> rfl)

/-- A run is still going. -/
def Unfinished (runs : RunTable) (id : Uuid) : Prop :=
  ∃ r ∈ runs.rows, r.id = id ∧ r.state.isTerminal = false

instance (runs : RunTable) (id : Uuid) : Decidable (runs.Unfinished id) :=
  inferInstanceAs (Decidable (∃ r ∈ runs.rows, r.id = id ∧ r.state.isTerminal = false))

end RunTable

/-- A key or a partition as the queue stores it: trimmed, and absent when
blank. -/
def trimmedNonempty (text : Option String) : Option String :=
  text.bind fun t =>
    let trimmed := trim t.toList
    if trimmed = [] then none else some (String.ofList trimmed)

def NewRun.row (request : NewRun) (id : Uuid) : Run :=
  { id := id
    tenantId := request.tenant
    taskType := String.ofList (trim request.taskType.toList)
    payload := request.payload
    partitionKey := trimmedNonempty request.partitionKey
    state := .queued
    cancelRequested := false
    idempotencyKey := trimmedNonempty request.idempotencyKey }

def NewRun.existing (request : NewRun) (runs : RunTable) : Option Run :=
  (trimmedNonempty request.idempotencyKey).bind (runs.findByIdempotencyKey request.tenant)

/-- The task types something in this deployment handles. -/
abbrev Registry := List String

def noHandler {α : Type} (registry : Registry) (taskType : String) : Outcome α :=
  let known := ", ".intercalate registry
  fail <| s!"no handler for task type '{taskType}' in this deployment " ++ s!"(known: {known})"

/-- `TaskQueue::enqueue` with the id a new run would get: the table after it and
the id of the run that answers the request. -/
def enqueue (registry : Registry) (runs : RunTable) (request : NewRun)
    (fresh : Uuid) : Outcome (RunTable × Uuid) :=
  let taskType := String.ofList (trim request.taskType.toList)
  if registry.contains taskType then
    match request.existing runs with
    | some r => .ok (runs, r.id)
    | none => do
      let runs ← runs.insert (request.row fresh)
      .ok (runs, fresh)
  else
    noHandler registry taskType

section Lookup

variable {runs : RunTable} {tenant id : Uuid}

theorem run_of_mem {r : Run} (hmem : r ∈ runs.rows) (htenant : r.tenantId = tenant) :
    runs.run tenant r.id = some r := by
  have hfound : (runs.run tenant r.id).isSome := by
    rw [RunTable.run, find?_isSome]
    exact ⟨r, hmem, by simp [htenant]⟩
  obtain ⟨s, hs⟩ := Option.isSome_iff_exists.mp hfound
  have hs_mem : s ∈ runs.rows := mem_of_find?_eq_some hs
  have hpred := find?_some hs
  simp only [decide_eq_true_eq] at hpred
  rw [hs, inj_on_of_nodup_map runs.ids_nodup hs_mem hmem hpred.1]

theorem insert_eq_ok {r : Run} {after : RunTable} (h : runs.insert r = .ok after) :
    after.rows = runs.rows ++ [r] := by
  unfold RunTable.insert at h
  split_ifs at h
  · simp [fail] at h
  · cases h
    rfl

/-- What a successful enqueue did: it answered a run of the table, or it
inserted one. -/
theorem enqueue_cases {registry : Registry} {request : NewRun} {fresh created : Uuid}
    {after : RunTable} (h : enqueue registry runs request fresh = .ok (after, created)) :
    after = runs ∨
      (after.rows = runs.rows ++ [request.row fresh] ∧ created = fresh) := by
  simp only [enqueue] at h
  split_ifs at h with hknown
  · cases hexisting : request.existing runs with
    | some =>
      rw [hexisting] at h
      cases h
      exact Or.inl rfl
    | none =>
      rw [hexisting] at h
      obtain ⟨inserted, hinsert, h⟩ := bind_eq_ok_iff.mp h
      cases h
      exact Or.inr ⟨insert_eq_ok hinsert, rfl⟩
  · simp [noHandler, fail] at h

theorem unfinished_of_setState {other : Uuid} {state : RunState}
    (h : (runs.setState other state).Unfinished id) : runs.Unfinished id := by
  obtain ⟨r, hmem, hid, hgoing⟩ := h
  obtain ⟨s, hs, rfl⟩ := mem_map.mp hmem
  refine ⟨s, hs, ?_⟩
  by_cases hother : s.id = other ∧ (!s.state.isTerminal) = true
  · simp only [hother, and_self, if_true] at hid
    exact ⟨hother.1.trans hid, by simpa using hother.2⟩
  · simp only [if_neg hother] at hid hgoing
    exact ⟨hid, hgoing⟩

theorem unfinished_of_prune {other : Uuid} (h : (runs.prune other).Unfinished id) :
    runs.Unfinished id := by
  obtain ⟨r, hmem, hid, hgoing⟩ := h
  exact ⟨r, (mem_filter.mp hmem).1, hid, hgoing⟩

end Lookup

end Scheduler
end StudioWeb
