import StudioWeb.Library.LabelledRuns
import StudioWeb.Scheduler.TaskQueue
import Mathlib.Logic.Function.Basic

/-!
# The deliveries, cancels and retries of one run

A run is a row, and its execution is a message of the queue.  The system below has one run
with its messages, the deliveries of `dispatch.rs`, and the calls of `cancel` and `retry`
that `service.rs` answers.  Every database statement is a step; a statement may fail, and
a delivery may be lost at any step: its lease runs out, or its process stops.

The queue hands a message over again until it is answered with `Ok` or `Reject`, and a
partition has one delivery at a time.

A message that is not of a run, or is of another one, is not here.  Neither is what
`record` tells the channel and the editor, and a progress report, which leaves the state
of the row alone.
-/

namespace StudioWeb
namespace Tasks

open Scheduler JsonText

def PARTITIONS : Nat := 8

def MAX_ATTEMPTS : Nat := 5

def LEASE : Nat := 15 * 60

def SOLO_TASK_TYPES : List String := ["catalog.sync"]

/-- FNV-1a over the bytes of a key; partition 0 is for the solo task types. -/
def partitionOf (key : String) : Nat :=
  let hash := key.toUTF8.toList.foldl
    (fun (hash : UInt64) byte => (hash ^^^ byte.toUInt64) * 0x100000001b3) 0xcbf29ce484222325
  1 + hash.toNat % (PARTITIONS - 1)

def partitionFor (taskType key : String) : Nat :=
  if taskType ∈ SOLO_TASK_TYPES then 0 else partitionOf key

/-- A row of the run table, with what a delivery writes. -/
structure RunRow extends Scheduler.Run where
  attempts : Nat
  summary : Option String
  result : Option Json
  lastError : Option String
  startedAt : Option Int
  finishedAt : Option Int

/-- The fields one transition touches. -/
structure Patch where
  state : RunState
  attempts : Option Nat
  error : Option String
  summary : Option String
  result : Option Json
  starting : Bool

def Patch.ofState (state : RunState) : Patch := ⟨state, none, none, none, none, false⟩

/-- A sentence of a text for a person to read. -/
def cut (text : String) : String :=
  if text.length ≤ 500 then text
  else String.ofList (text.toList.take 499 ++ ['…'])

/-- The update of `record`. -/
def Patch.record (patch : Patch) (now : Int) (r : RunRow) : RunRow :=
  { r with
    state := patch.state
    attempts := patch.attempts.getD r.attempts
    startedAt := if patch.starting then some now else r.startedAt
    finishedAt := if patch.state.isTerminal then some now else r.finishedAt
    summary := (patch.summary.map cut).or r.summary
    result := patch.result.or r.result
    lastError :=
      if patch.summary.isSome then none else (patch.error.map cut).or r.lastError }

/-- The update of `retry`. -/
def RunRow.reset (r : RunRow) : RunRow :=
  { r with
    state := .queued, attempts := 0, lastError := none, cancelRequested := false,
    startedAt := none, finishedAt := none }

def RunRow.partition (r : RunRow) : Nat := partitionFor r.taskType (r.partitionKey.getD r.id.text)

/-- A message has nothing left to do. -/
def settled (state : RunState) : Bool :=
  decide (state = .succeeded) || decide (state = .cancelled) || decide (state = .failed)

inductive TaskOutcome where
  | done (summary : Option String) (result : Option Json)
  | failed (reason : String)
  | retry (reason : String)

inductive MessageResult where
  | ok
  | retry
  | reject (reason : String)
deriving DecidableEq

/-- The queue forgets a message that is answered so. -/
def MessageResult.isFinal : MessageResult → Bool
  | .ok => true
  | .retry => false
  | .reject _ => true

structure Message where
  id : Nat
  /-- How often it was handed over before. -/
  attempts : Nat
  partition : Nat
deriving DecidableEq

/-- What a delivery finds around it: the handler of the task type with its number of
attempts, whether every handler is registered, and the context it runs the work in. -/
structure Surroundings where
  handler : Option Nat
  ready : Bool
  workerContext : Except String Unit

/-- A handler at work. -/
structure Execution where
  attempt : Nat
  maxAttempts : Nat
deriving DecidableEq

/-- What follows a `record`. -/
inductive AfterRecord where
  | execute (execution : Execution)
  | answer (result : MessageResult)
deriving DecidableEq

inductive DeliveryPc where
  /-- Its read of the row. -/
  | reading
  /-- The update of a `record`. -/
  | recording (patch : Patch) (after : AfterRecord)
  | executing (execution : Execution)
  /-- Its read of the cancel flag. -/
  | checking (execution : Execution) (outcome : TaskOutcome)
  /-- The queue's answer to its answer. -/
  | answering (result : MessageResult)

structure Delivery where
  message : Message
  pc : DeliveryPc

def Message.attempt (message : Message) : Nat := min (message.attempts + 1) 32767

def interrupted (attempt : Nat) (state : RunState) : Option String :=
  let before := attempt - 1
  if 1 < attempt ∧ state = .running then
    some s!"attempt {before} never reported back (its lease ran out, or its process stopped)"
  else
    none

/-- `handle` of a task type without a handler. -/
def handleMissing (attempt : Nat) (ready : Bool) (row : RunRow) : DeliveryPc :=
  let taskType := row.taskType
  let reason := s!"no handler is registered for task type '{taskType}' in this deployment"
  if !ready then .answering .retry
  else if MAX_ATTEMPTS < attempt then
    .recording { Patch.ofState .failed with error := some reason } (.answer (.reject reason))
  else .answering .retry

/-- `handle` with a handler, up to its start. -/
def handleWith (attempt maxAttempts : Nat) (workerContext : Except String Unit)
    (row : RunRow) : DeliveryPc :=
  let before := attempt - 1
  let reason :=
    s!"gave up after {before} deliveries, the last of which never reported back — " ++
      s!"the work is most likely longer than this queue's {LEASE}s lease"
  if maxAttempts < attempt then
    .recording { Patch.ofState .failed with error := some reason } (.answer (.reject reason))
  else
    match workerContext with
    | .error message => .answering (.reject message)
    | .ok () =>
      .recording { Patch.ofState .running with
        attempts := some attempt
        starting := true
        error := interrupted attempt row.state }
        (.execute ⟨attempt, maxAttempts⟩)

/-- `handle`, from its read of the row to the next statement. -/
def handle (attempt : Nat) (around : Surroundings) : Option RunRow → DeliveryPc
  | none => .answering .ok
  | some row =>
    if settled row.state then .answering .ok
    else if row.cancelRequested then .recording (.ofState .cancelled) (.answer .ok)
    else
      match around.handler with
      | none => handleMissing attempt around.ready row
      | some maxAttempts => handleWith attempt maxAttempts around.workerContext row

/-- `handle`, from its read of the cancel flag to the next statement. -/
def conclude (execution : Execution) (cancelled : Bool) (outcome : TaskOutcome) : DeliveryPc :=
  if cancelled then .recording (.ofState .cancelled) (.answer .ok)
  else
    match outcome with
    | .done summary result =>
      .recording { Patch.ofState .succeeded with summary := summary, result := result }
        (.answer .ok)
    | .failed reason =>
      .recording { Patch.ofState .failed with error := some reason } (.answer (.reject reason))
    | .retry reason =>
      if execution.maxAttempts ≤ execution.attempt then
        .recording { Patch.ofState .failed with error := some reason } (.answer (.reject reason))
      else
        .recording { Patch.ofState .queued with error := some reason } (.answer .retry)

structure RunWorld where
  row : Option RunRow
  messages : List Message
  messageCount : Nat
  /-- The delivery of each partition. -/
  deliveries : Nat → Option Delivery
  /-- The calls of `retry` that go on, each with the row it read. -/
  retries : Nat → Option RunRow
  /-- The calls of `cancel` that go on. -/
  cancels : Nat → Bool
  /-- How often a handler was started. -/
  executions : Nat

inductive RunAction where
  | handOver (message : Message)
  | reads (partition : Nat) (around : Surroundings)
  | readFails (partition : Nat)
  | records (partition : Nat) (now : Int)
  | recordFails (partition : Nat)
  | returns (partition : Nat) (outcome : TaskOutcome)
  | checks (partition : Nat) (heard : Bool)
  | answers (partition : Nat)
  | lost (partition : Nat)
  | retryReads (call : Nat)
  | retryResets (call : Nat)
  | retryFails (call : Nat)
  | cancelReads (call : Nat)
  | cancelWrites (call : Nat)
  | cancelFails (call : Nat)
  /-- The retention sweep deletes the row of a run that is over. -/
  | prunes

namespace RunWorld

def setDelivery (w : RunWorld) (partition : Nat) (delivery : Option Delivery) : RunWorld :=
  { w with deliveries := Function.update w.deliveries partition delivery }

def setRetry (w : RunWorld) (call : Nat) (row : Option RunRow) : RunWorld :=
  { w with retries := Function.update w.retries call row }

def setCancel (w : RunWorld) (call : Nat) (goes : Bool) : RunWorld :=
  { w with cancels := Function.update w.cancels call goes }

/-- A delivery awaits something else. -/
def goto (w : RunWorld) (partition : Nat) (message : Message) (pc : DeliveryPc) : RunWorld :=
  w.setDelivery partition (some ⟨message, pc⟩)

def count (w : RunWorld) (message : Message) : RunWorld :=
  { w with
    messages := w.messages.map fun m =>
      if m = message then { m with attempts := m.attempts + 1 } else m }

def handOver (w : RunWorld) (message : Message) : Option RunWorld :=
  if message ∈ w.messages ∧ (w.deliveries message.partition).isNone then
    some ((w.count message).goto message.partition message .reading)
  else
    none

def reads (w : RunWorld) (partition : Nat) (around : Surroundings) : Option RunWorld :=
  match w.deliveries partition with
  | some ⟨message, .reading⟩ =>
    some (w.goto partition message (handle message.attempt around w.row))
  | _ => none

def readFails (w : RunWorld) (partition : Nat) : Option RunWorld :=
  match w.deliveries partition with
  | some ⟨message, .reading⟩ => some (w.goto partition message (.answering .retry))
  | _ => none

/-- What follows a `record`, whether or not it took effect. -/
def afterRecord (w : RunWorld) (partition : Nat) (message : Message) : AfterRecord → RunWorld
  | .execute execution =>
    { w with executions := w.executions + 1 }.goto partition message (.executing execution)
  | .answer result => w.goto partition message (.answering result)

def records (w : RunWorld) (partition : Nat) (now : Int) : Option RunWorld :=
  match w.deliveries partition with
  | some ⟨message, .recording patch after⟩ =>
    some ({ w with row := w.row.map (patch.record now) }.afterRecord partition message after)
  | _ => none

def recordFails (w : RunWorld) (partition : Nat) : Option RunWorld :=
  match w.deliveries partition with
  | some ⟨message, .recording _ after⟩ => some (w.afterRecord partition message after)
  | _ => none

def returns (w : RunWorld) (partition : Nat) (outcome : TaskOutcome) : Option RunWorld :=
  match w.deliveries partition with
  | some ⟨message, .executing execution⟩ =>
    some (w.goto partition message (.checking execution outcome))
  | _ => none

/-- A read of the cancel flag that fails is not a cancellation. -/
def checks (w : RunWorld) (partition : Nat) (heard : Bool) : Option RunWorld :=
  match w.deliveries partition with
  | some ⟨message, .checking execution outcome⟩ =>
    let requested := (w.row.map fun r => r.cancelRequested).getD false
    some (w.goto partition message (conclude execution (heard && requested) outcome))
  | _ => none

/-- The queue is done with a message. -/
def forget (w : RunWorld) (message : Message) : RunWorld :=
  { w with messages := w.messages.filter fun m => m.id ≠ message.id }

def answers (w : RunWorld) (partition : Nat) : Option RunWorld :=
  match w.deliveries partition with
  | some ⟨message, .answering result⟩ =>
    let w := w.setDelivery partition none
    some (if result.isFinal then w.forget message else w)
  | _ => none

def lost (w : RunWorld) (partition : Nat) : Option RunWorld :=
  (w.deliveries partition).map fun _ => w.setDelivery partition none

/-- The read of `retry`, and its decision. -/
def retryReads (w : RunWorld) (call : Nat) : Option RunWorld :=
  match w.row with
  | none => some w
  | some row =>
    match row.state with
    | .succeeded | .queued | .running => some w
    | .failed | .cancelled => some (w.setRetry call (some row))

/-- The transaction of `retry`: the row is reset and a message of its own is enqueued. -/
def requeue (w : RunWorld) (partition : Nat) : RunWorld :=
  { w with
    row := w.row.map RunRow.reset
    messages := w.messages ++ [⟨w.messageCount, 0, partition⟩]
    messageCount := w.messageCount + 1 }

def retryResets (w : RunWorld) (call : Nat) : Option RunWorld :=
  (w.retries call).map fun row => (w.requeue row.partition).setRetry call none

def retryFails (w : RunWorld) (call : Nat) : Option RunWorld :=
  (w.retries call).map fun _ => w.setRetry call none

/-- The read of `cancel`, and its decision. -/
def cancelReads (w : RunWorld) (call : Nat) : Option RunWorld :=
  match w.row with
  | none => some w
  | some row => some (if row.state.isTerminal then w else w.setCancel call true)

/-- The update of `cancel`. -/
def requestCancel (w : RunWorld) : RunWorld :=
  { w with row := w.row.map fun r => { r with cancelRequested := true } }

def cancelWrites (w : RunWorld) (call : Nat) : Option RunWorld :=
  if w.cancels call then some (w.requestCancel.setCancel call false) else none

def cancelFails (w : RunWorld) (call : Nat) : Option RunWorld :=
  if w.cancels call then some (w.setCancel call false) else none

def prunes (w : RunWorld) : Option RunWorld :=
  some { w with row := w.row.filter fun r => !r.state.isTerminal }

def step (w : RunWorld) : RunAction → Option RunWorld
  | .handOver message => w.handOver message
  | .reads partition around => w.reads partition around
  | .readFails partition => w.readFails partition
  | .records partition now => w.records partition now
  | .recordFails partition => w.recordFails partition
  | .returns partition outcome => w.returns partition outcome
  | .checks partition heard => w.checks partition heard
  | .answers partition => w.answers partition
  | .lost partition => w.lost partition
  | .retryReads call => w.retryReads call
  | .retryResets call => w.retryResets call
  | .retryFails call => w.retryFails call
  | .cancelReads call => w.cancelReads call
  | .cancelWrites call => w.cancelWrites call
  | .cancelFails call => w.cancelFails call
  | .prunes => w.prunes

/-- The run as `enqueue` leaves it: the row and its message commit together. -/
def enqueued (run : Scheduler.Run) : RunWorld :=
  let row : RunRow :=
    { run with
      state := .queued, cancelRequested := false, attempts := 0, summary := none,
      result := none, lastError := none, startedAt := none, finishedAt := none }
  { row := some row
    messages := [⟨0, 0, row.partition⟩]
    messageCount := 1
    deliveries := fun _ => none
    retries := fun _ => none
    cancels := fun _ => false
    executions := 0 }

end RunWorld

section Reads

variable {w t : RunWorld} {p q : Nat} {message : Message} {pc : DeliveryPc}

variable (patch : Patch) (now : Int) (r : RunRow)

@[simp] theorem record_state :
    (patch.record now r).state = patch.state := rfl

@[simp] theorem record_partition :
    (patch.record now r).partition = r.partition := rfl

@[simp] theorem reset_partition (r : RunRow) :
    r.reset.partition = r.partition := rfl

theorem settled_eq_isTerminal (state : RunState) : settled state = state.isTerminal := by
  cases state <;> rfl

theorem deliveries_setDelivery_cases {delivery : Option Delivery} {d : Delivery}
    (h : (w.setDelivery p delivery).deliveries q = some d) :
    (q = p ∧ delivery = some d) ∨ (q ≠ p ∧ w.deliveries q = some d) := by
  simp only [RunWorld.setDelivery, Function.update_apply] at h
  split at h
  · next hq => exact Or.inl ⟨hq, h⟩
  · next hq => exact Or.inr ⟨hq, h⟩

theorem exists_count {m : Message} (h : m ∈ w.messages) :
    ∃ m' ∈ (w.count message).messages, m'.id = m.id := by
  refine ⟨_, List.mem_map_of_mem h, ?_⟩
  split <;> rfl

end Reads

end Tasks
end StudioWeb
