import StudioWeb.Environments.Deployments
import StudioWeb.Library.LabelledRuns

/-!
# Requests, decisions, reads and what becomes of their runs

`submit`, `decide` and `deployments` of `environments/service.rs`, the queue they put
runs in, and the sweep that records a preview as removed.  Every read and every write of
the history and every enqueue is one step, so calls of anybody interleave between them.

Beside the store the world remembers what the code does not: which deployments were
asked for, whose runs succeeded and in what order, which successes were written back,
which previews were removed and which declines were answered.
-/

namespace StudioWeb
namespace Environments

open Scheduler (Uuid RunState trimmedNonempty)
open LabelledRuns

inductive Refusal where
  | notFound (what why : String)
  | invalid (why : String)
  | precondition (code why : String)
  | unavailable (why : String)
  | internal (why : String)
deriving DecidableEq

structure DeployRun where
  id : Uuid
  deployment : Deployment
  state : RunState
  lastError : Option String
  output : Option String
deriving DecidableEq

/-- The partition: one release is installed by one run at a time. -/
def DeployRun.partition (r : DeployRun) : String :=
  s!"{r.deployment.namespace}:{r.deployment.product}"

def enqueueRun (runs : List DeployRun) (d : Deployment) (fresh : Uuid) : List DeployRun × Uuid :=
  match runs.find? fun r => r.deployment.id = d.id with
  | some r => (runs, r.id)
  | none =>
    (runs ++
      [{ id := fresh
         deployment := d
         state := .queued
         lastError := none
         output := none }],
      fresh)

/-- Where a run has got to, as the record says it. -/
def stateOf : RunState → DeploymentState
  | .queued => .queued
  | .running => .running
  | .succeeded => .succeeded
  | .failed => .failed
  | .cancelled => .cancelled

/-- `lines().last().unwrap_or_default()`. -/
def lastLine (text : String) : String :=
  let pieces := text.toList.splitOn '\n'
  let lines := if pieces.getLast? = some [] then pieces.dropLast else pieces
  let line := (lines.getLast?).getD []
  String.ofList (if line.getLast? = some '\r' then line.dropLast else line)

/-- What the run said: why it failed, or the last line of its output. -/
def outcomeOf (r : DeployRun) : Option String :=
  match r.lastError with
  | some why => some why
  | none => r.output.map lastLine

/-- The run of a record that has not ended yet, when the queue answers it. -/
def runOf (runs : List DeployRun) (answered : Uuid → Bool) (d : Deployment) : Option DeployRun :=
  if d.state = .queued ∨ d.state = .running then
    d.runId.bind fun run =>
      if answered run then runs.find? fun r => r.id = run else none
  else
    none

/-- A record with where its run has got to. -/
def refreshed (runs : List DeployRun) (answered : Uuid → Bool) (d : Deployment) : Deployment :=
  match runOf runs answered d with
  | none => d
  | some r =>
    if stateOf r.state = d.state then
      d
    else
      { d with state := stateOf r.state, outcome := outcomeOf r }

/-- The record's run ended since the last read. -/
def hasEnded (runs : List DeployRun) (answered : Uuid → Bool) (d : Deployment) : Bool :=
  (runOf runs answered d).any fun r => stateOf r.state ≠ d.state && r.state.isTerminal

/-- A read asks for this record. -/
def asksFor (project environment : Option Uuid) (d : Deployment) : Bool :=
  project.all (fun p => p = d.projectId) && environment.all fun e => e = d.environmentId

/-- What `EnvironmentService::deployments` answers. -/
def deploymentsRead (list : DeploymentList) (runs : List DeployRun) (answered : Uuid → Bool)
    (project environment : Option Uuid) : List Deployment :=
  (list.items.filter (asksFor project environment)).map fun d =>
    { refreshed runs answered d with pendingChart := none }

/-- The records that `deployments` writes back, each as it was read and as it is
written. -/
def endedSince (list : DeploymentList) (runs : List DeployRun) (answered : Uuid → Bool)
    (project environment : Option Uuid) : List (Deployment × Deployment) :=
  ((list.items.filter (asksFor project environment)).filter (hasEnded runs answered)).map
    fun d => (d, refreshed runs answered d)

structure Person where
  id : String
  name : Option String

/-- What `decide` writes first. -/
inductive Decision where
  | approves (d : Deployment)
  | declines (d : Deployment)

/-- `decide`, on the record it read, up to its first write. -/
def decision (d : Deployment) (person : Person) (decidedAt : String) (approve : Bool)
    (reason : Option String) (environment : Except Refusal Unit)
    (config : Except Refusal (List String)) : Except Refusal Decision :=
  let reason := trimmedNonempty reason
  if !approve && reason.isNone then
    .error (.invalid "a declined deploy says why: give a reason")
  else if d.state ≠ .awaitingApproval then
    .error (.precondition "DEPLOYMENT_NOT_AWAITING_APPROVAL"
      s!"the deploy is {d.state.asStr}, not waiting for a decision")
  else
    let decided : Deployment :=
      { d with
        decidedBy := some person.id
        decidedByName := person.name
        decidedAt := some decidedAt
        reason := reason
        pendingChart := none }
    if approve then
      environment.bind fun _ =>
        if d.action = .install && d.pendingChart.isNone && d.chartRef.isNone then
          .error (.precondition "DEPLOYMENT_CHART_GONE"
            "the deploy no longer carries its chart: ask again")
        else
          config.bind fun warnings =>
            .ok (.approves { decided with state := .queued, warnings := warnings })
    else
      .ok (.declines { decided with state := .declined })

inductive CallPc where
  | idle
  | approving (base value : Deployment)
  | declining (base value : Deployment)
  | queueing (d : Deployment)
  | finishing (base value : Deployment)
  | writingBack (pending : List (Deployment × Deployment))

structure DeployWorld where
  list : DeploymentList
  runs : List DeployRun
  calls : Nat → CallPc
  asked : List Deployment
  succeeded : List Deployment
  settled : List Uuid
  removed : List Uuid
  declined : List Uuid

inductive DeployAction where
  | requests (call : Nat) (d : Deployment) (isProtected : Bool) (chart : Option String)
  | decides (call : Nat) (id : Uuid) (person : Person) (decidedAt : String) (approve : Bool)
      (reason : Option String) (environment : Except Refusal Unit)
      (config : Except Refusal (List String))
  | approves (call : Nat)
  | declines (call : Nat)
  | enqueues (call : Nat) (fresh : Uuid)
  | enqueueFails (call : Nat) (why : String)
  | finishes (call : Nat)
  | reads (call : Nat) (answered : Uuid → Bool) (project environment : Option Uuid)
  | writesBack (call : Nat) (stored : Bool)
  | starts (run : Uuid)
  | ends (run : Uuid) (state : RunState) (lastError output : Option String)
  | removes (id : Uuid) (removedAt : String) (error : Option String)

/-- A deployment that waits for a decision, with the chart it was sent. -/
def Deployment.held (d : Deployment) (chart : Option String) : Deployment :=
  { d with state := .awaitingApproval, pendingChart := chart }

/-- A deployment as `request_deploy` makes it. -/
structure IsNew (d : Deployment) : Prop where
  state : d.state = .queued
  runId : d.runId = none
  preview : d.preview.isSome = true → d.action = .install
  removed : d.isRemoved = false

instance (d : Deployment) : Decidable (IsNew d) :=
  decidable_of_iff (d.state = .queued ∧ d.runId = none ∧
      (d.preview.isSome = true → d.action = .install) ∧ d.isRemoved = false)
    ⟨fun h => ⟨h.1, h.2.1, h.2.2.1, h.2.2.2⟩,
      fun h => ⟨h.state, h.runId, h.preview, h.removed⟩⟩

def markRemoval (removedAt : String) (error : Option String) (d : Deployment) : Deployment :=
  { d with
    preview := d.preview.map fun p =>
      match error with
      | none => { p with removedAt := some removedAt, removalError := none }
      | some why => { p with removalError := some why } }

namespace DeploymentList

def change (list : DeploymentList) (id : Uuid) (f : Deployment → Deployment) :
    DeploymentList where
  items := list.items.map fun x => if x.id = id then f x else x

end DeploymentList

namespace DeployWorld

def start : DeployWorld where
  list := ⟨[]⟩
  runs := []
  calls := fun _ => .idle
  asked := []
  succeeded := []
  settled := []
  removed := []
  declined := []

def setCall (w : DeployWorld) (call : Nat) (pc : CallPc) : DeployWorld :=
  { w with calls := Function.update w.calls call pc }

def record (w : DeployWorld) (d : Deployment) : DeployWorld :=
  { w with
    list := w.list.record d
    settled := if d.state = .succeeded then w.settled ++ [d.id] else w.settled }

/-- The run may go on: nothing of its partition that was queued before it is unfinished. -/
def isNext (w : DeployWorld) (r : DeployRun) : Bool :=
  (w.runs.takeWhile fun x => x.id ≠ r.id).all fun x =>
    x.partition ≠ r.partition || x.state.isTerminal

def setRun (w : DeployWorld) (r : DeployRun) : DeployWorld :=
  { w with runs := w.runs.map fun x => if x.id = r.id then r else x }

def findRun (w : DeployWorld) (run : Uuid) : Option DeployRun := w.runs.find? fun r => r.id = run

def step (w : DeployWorld) : DeployAction → Option DeployWorld
  | .requests call d isProtected chart =>
    match w.calls call with
    | .idle =>
      if IsNew d ∧ d.id ∉ w.asked.map Deployment.id then
        if isProtected then
          match w.list.waitingLike (d.held chart) with
          | some _ => some w
          | none => some { w.record (d.held chart) with asked := w.asked ++ [d] }
        else
          some { (w.record d).setCall call (.queueing d) with asked := w.asked ++ [d] }
      else
        none
    | _ => none
  | .decides call id person decidedAt approve reason environment config =>
    match w.calls call with
    | .idle =>
      match w.list.get id with
      | none => some w
      | some d =>
        match decision d person decidedAt approve reason environment config with
        | .error _ => some w
        | .ok (.approves value) => some (w.setCall call (.approving d value))
        | .ok (.declines value) => some (w.setCall call (.declining d value))
    | _ => none
  | .approves call =>
    match w.calls call with
    | .approving _ value => some ((w.record value).setCall call (.queueing value))
    | _ => none
  | .declines call =>
    match w.calls call with
    | .declining _ value =>
      some { (w.record value).setCall call .idle with
        declined := w.declined ++ [value.id] }
    | _ => none
  | .enqueues call fresh =>
    match w.calls call with
    | .queueing d =>
      if fresh ∉ w.runs.map DeployRun.id then
        let (runs, run) := enqueueRun w.runs d fresh
        some { w.setCall call (.finishing d { d with runId := some run }) with
          runs := runs }
      else
        none
    | _ => none
  | .enqueueFails call why =>
    match w.calls call with
    | .queueing d =>
      some (w.setCall call (.finishing d { d with state := .failed, outcome := some why }))
    | _ => none
  | .finishes call =>
    match w.calls call with
    | .finishing _ value => some ((w.record value).setCall call .idle)
    | _ => none
  | .reads call answered project environment =>
    match w.calls call with
    | .idle =>
      some (w.setCall call (.writingBack (endedSince w.list w.runs answered project environment)))
    | _ => none
  | .writesBack call stored =>
    match w.calls call with
    | .writingBack [] => some (w.setCall call .idle)
    | .writingBack ((_, value) :: rest) =>
      let w := if stored then w.record value else w
      some (w.setCall call (.writingBack rest))
    | _ => none
  | .starts run =>
    match w.findRun run with
    | some r =>
      if r.state = .queued ∧ w.isNext r = true then
        some (w.setRun { r with state := .running })
      else
        none
    | none => none
  | .ends run state lastError output =>
    match w.findRun run with
    | some r =>
      if state.isTerminal ∧ r.state.isTerminal = false ∧ w.isNext r = true then
        let ended := { r with state := state, lastError := lastError, output := output }
        some { w.setRun ended with
          succeeded :=
            if state = .succeeded then w.succeeded ++ [r.deployment] else w.succeeded }
      else
        none
    | none => none
  | .removes id removedAt error =>
    match w.list.get id with
    | some d =>
      if d.isLivePreview then
        some { w with
          list := w.list.change id (markRemoval removedAt error)
          removed := if error.isNone then w.removed ++ [id] else w.removed }
      else
        none
    | none => none

end DeployWorld

def shopInstall (id : String) : Deployment where
  id := ⟨id⟩
  projectId := ⟨"shop"⟩
  projectName := "Shop"
  environmentId := ⟨"dev"⟩
  environmentName := "dev"
  profile := "default"
  product := "shop"
  action := .install
  redeployOf := none
  commit := none
  lockHash := none
  build := none
  images := []
  «namespace» := "shop-dev"
  chartSha256 := ""
  chartRef := some ⟨"oci://ghcr.io/acme/shop/charts/shop", "0.1.0", none⟩
  state := .queued
  runId := none
  requestedBy := "ann"
  requestedByName := "Ann"
  requestedAt := "2026-01-01T00:00:00Z"
  decidedBy := none
  decidedByName := none
  decidedAt := none
  reason := none
  outcome := none
  pendingChart := none
  preview := none
  warnings := []

end Environments
end StudioWeb
