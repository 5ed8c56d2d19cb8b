import StudioWeb.Library.LabelledRuns
import StudioWeb.WorkspaceJobs.JobJournal

/-!
# The workspace job queue

The queue of `workspace-job-queue.ts` as a transition system.  Its code runs in
turns: a turn runs without interruption up to the next `await`, and any other
turn may come in between.  Each action below is one turn.

Every change of a job is an append to the journal.  Appends are issued in one
turn and take effect later, one after the other; `tail` is the queue of those
issued and not yet written, each with the code that awaits it.  `commit` lets the
first of them take effect, `appendFails` lets its write fail, and the code that
awaited it goes on in a turn of its own.

A source with pending jobs has at most one loop.  The loop keeps a reference to
the array of pending jobs it started with.  As long as that is the array in the
map, what is pushed to it is seen by the loop; dropping a job puts a new array
into the map, and the loop goes on with the old one, which is then its own
(`detached`).

A loop that is started looks at its first job in a turn of its own here.  The
source does so in the turn that starts it, so its runs are among those of this
system.

Four fields record what has happened: which controllers were aborted by the
cancel of which job, which job was handed which controller, the snapshots and
the starts in order (first the newest snapshots the queue began with), and which
jobs were put into which array.
-/

namespace StudioWeb
namespace WorkspaceJobs

inductive LoopPc where
  | checking
  | starting (jobId : String)
  | started (jobId : String)
  | executing (jobId : String)
  | settling (jobId : String) (caught : Bool)
  | settled (jobId : String)
deriving DecidableEq

/-- The loop of a source: its controller, what it awaits, and its own array. -/
structure Loop where
  controller : Nat
  pc : LoopPc
  detached : Option (List String)
deriving DecidableEq

/-- The code that awaits an append. -/
inductive Owner where
  | enqueue
  | retry
  | cancel
  | report
  | start (source : String)
  | settle (source : String)
deriving DecidableEq

/-- The source whose loop awaits. -/
def Owner.source? : Owner → Option String
  | .start source => some source
  | .settle source => some source
  | .enqueue | .retry | .cancel | .report => none

structure Append where
  owner : Owner
  input : SnapshotInput
deriving DecidableEq

structure EnqueueWorkspaceJobRequest where
  kind : WorkspaceJobKind
  sourceId : String
  idempotencyKey : String
  batchId : Option String
  sourceIds : Option (List String)
deriving DecidableEq

inductive Enqueuing where
  | appending
  | appended (job : WorkspaceJobSnapshot)
deriving DecidableEq

/-- What happened to a job, in order. -/
inductive Entry where
  | snapshot (jobId : String) (state : WorkspaceJobState)
  | start (jobId : String)
deriving DecidableEq

structure QueueState where
  journal : Journal
  tail : List Append
  pendingBySource : InsertionMap String (List String)
  activeBySource : InsertionMap String Loop
  controllers : Nat
  waiting : List EnqueueWorkspaceJobRequest
  enqueuing : Option Enqueuing
  retried : List WorkspaceJobSnapshot
  aborted : List (Nat × String)
  handed : List (String × Nat)
  history : List Entry
  issued : List (String × String)

/-- How an execution ends. -/
inductive WorkspaceJobExecutionResult where
  | completed (progress : Option WorkspaceSyncProgress)
  | failed (error : WorkspaceSyncError)
  | awaitingConfirmation (error : WorkspaceSyncError)
  | cancelled
deriving DecidableEq

/-- The cleanup fields of a result or of a runtime update. -/
structure CleanupFields where
  cleanupSafe : Option Bool
  cleanupRequired : Option Bool
  cleanupReason : Option String
deriving DecidableEq

structure WorkspaceJobRuntimeUpdate where
  phase : WorkspaceSyncPhase
  progress : Option WorkspaceSyncProgress
  cleanup : CleanupFields
deriving DecidableEq

def toCleanupMarker (result : CleanupFields) (defaultSafe : Bool) (now : String) :
    WorkspaceJobCleanupMarker :=
  { required := result.cleanupRequired.getD false
    safe := result.cleanupSafe.getD defaultSafe
    reason := result.cleanupReason.bind fun r => if r = "" then none else some r
    updatedAt := now }

def EnqueueWorkspaceJobRequest.scope (request : EnqueueWorkspaceJobRequest) : WorkspaceJobScope :=
  { kind := request.kind
    batchId := request.batchId.getD request.idempotencyKey
    sourceId := request.sourceId
    sourceIds := request.sourceIds.getD [request.sourceId]
    idempotencyKey := request.idempotencyKey }

/-- The progress of a job that has not begun. -/
def noProgress (sourceIds : List String) (sourceId : String) : WorkspaceSyncProgress :=
  { completedSources := 0
    totalSources := sourceIds.length
    activeSourceId := some sourceId }

/-- The first snapshot of an enqueued job. -/
def queuedInput (scope : WorkspaceJobScope) (jobId now : String) : SnapshotInput :=
  { toWorkspaceJobScope := scope
    jobId := jobId
    state := .queued
    phase := .queued
    startedAt := now
    updatedAt := now
    progress := some (noProgress scope.sourceIds scope.sourceId)
    lastError := none
    cleanupMarker := none
    retry :=
      { rootJobId := jobId
        retryOfJobId := none
        attempt := 0
        recoveryState := .none } }

/-- The lineage `persist` prepares. -/
def preparedRetry (retry : WorkspaceJobRetryLineage) (jobId : String) : WorkspaceJobRetryLineage :=
  if retry.rootJobId = "" then { retry with rootJobId := jobId } else retry

def retriedInput (job : WorkspaceJobSnapshot) (jobId idempotencyKey now : String) : SnapshotInput :=
  { kind := job.kind
    batchId := job.batchId
    sourceId := job.sourceId
    sourceIds := job.sourceIds
    idempotencyKey := idempotencyKey
    jobId := jobId
    state := .queued
    phase := .queued
    startedAt := now
    updatedAt := now
    progress := some (noProgress job.sourceIds job.sourceId)
    lastError := none
    cleanupMarker := some
      { required := (job.cleanupMarker.map (fun m => m.required)).getD false
        safe := false
        reason := some "retry-pending-cleanup-review"
        updatedAt := now }
    retry := preparedRetry
      { rootJobId := job.retry.rootJobId
        retryOfJobId := some job.jobId
        attempt := job.retry.attempt + 1
        recoveryState :=
          if job.retry.recoveryState = .interrupted then .recovered else .none }
      jobId }

/-- A further snapshot of a job: `persist` of a copy with another state. -/
def SnapshotInput.become (job : SnapshotInput) (state : WorkspaceJobState)
    (phase : WorkspaceSyncPhase) (now : String) : SnapshotInput :=
  { job with
    state := state
    phase := phase
    updatedAt := now
    retry := preparedRetry job.retry job.jobId }

def queuedCancelledInput (job : WorkspaceJobSnapshot) (now : String) : SnapshotInput :=
  { job.toSnapshotInput.become .cancelled .cancelled now with
    cleanupMarker := some
      { required := false
        safe := true
        reason := some "queued-cancelled"
        updatedAt := now } }

def runningInput (current : WorkspaceJobSnapshot) (now : String) : SnapshotInput :=
  { current.toSnapshotInput.become .running .preflight now with
    progress := some (noProgress current.sourceIds current.sourceId) }

/-- The snapshot `runJob` writes for a result. -/
def resultInput (latest : WorkspaceJobSnapshot)
    (result : WorkspaceJobExecutionResult) (cleanup : CleanupFields)
    (now : String) : SnapshotInput :=
  match result with
  | .completed progress =>
    { latest.toSnapshotInput.become .completed .completed now with
      progress := some <| progress.getD
        { completedSources := latest.sourceIds.length
          totalSources := latest.sourceIds.length
          activeSourceId := none }
      cleanupMarker := some (toCleanupMarker cleanup true now) }
  | .awaitingConfirmation error =>
    { latest.toSnapshotInput.become .awaitingConfirmation .awaitingConfirmation now with
      lastError := some error
      cleanupMarker := some (toCleanupMarker cleanup false now) }
  | .cancelled =>
    { latest.toSnapshotInput.become .cancelled .cancelled now with
      cleanupMarker := some (toCleanupMarker cleanup false now) }
  | .failed error =>
    { latest.toSnapshotInput.become .failed .failed now with
      lastError := some error
      cleanupMarker := some (toCleanupMarker cleanup false now) }

/-- The snapshot `runJob` writes when the execution, or the append of its
result, has thrown. -/
def caughtInput (latest : WorkspaceJobSnapshot) (aborted : Bool)
    (message now : String) : SnapshotInput :=
  if aborted && latest.state != .completed then
    { latest.toSnapshotInput.become .cancelled .cancelled now with
      cleanupMarker := some <| latest.cleanupMarker.getD
        { required := true
          safe := false
          reason := some "abort-during-active-sync"
          updatedAt := now } }
  else
    { latest.toSnapshotInput.become .failed .failed now with
      lastError := some
        { code := "execution-error"
          message := message
          sourceId := some latest.sourceId
          retryable := true }
      cleanupMarker := some <| latest.cleanupMarker.getD
        { required := true
          safe := false
          reason := some "execution-failed"
          updatedAt := now } }

def reportedReason (update : CleanupFields)
    (marker : Option WorkspaceJobCleanupMarker) : Option String :=
  let stored := marker.bind (fun m => m.reason)
  if update.cleanupReason.getD "" = "" ∧ stored.getD "" = "" then
    none
  else
    update.cleanupReason.or stored

def reportInput (current : WorkspaceJobSnapshot)
    (update : WorkspaceJobRuntimeUpdate) (now : String) : SnapshotInput :=
  { current.toSnapshotInput.become .running update.phase now with
    progress := update.progress.or current.progress
    cleanupMarker := some
      { required := update.cleanup.cleanupRequired.getD
          ((current.cleanupMarker.map (fun m => m.required)).getD false)
        safe := update.cleanup.cleanupSafe.getD
          ((current.cleanupMarker.map (fun m => m.safe)).getD true)
        reason := reportedReason update.cleanup current.cleanupMarker
        updatedAt := now } }

def queueJob (pending : InsertionMap String (List String))
    (job : WorkspaceJobSnapshot) : InsertionMap String (List String) :=
  let jobs := (pending.get? job.sourceId).getD []
  if jobs.contains job.jobId then
    pending
  else
    pending.set job.sourceId (jobs ++ [job.jobId])

namespace QueueState

variable (w : QueueState)

def stateOf (jobId : String) : Option WorkspaceJobState :=
  (w.journal.getJob jobId).map (fun job => job.state)

/-- The array the loop of a source works on. -/
def jobsOf (source : String) (l : Loop) : List String :=
  match l.detached with
  | some jobs => jobs
  | none => (w.pendingBySource.get? source).getD []

def putLoop (source : String) (l : Loop) : QueueState :=
  { w with activeBySource := w.activeBySource.set source l }

def issue (owner : Owner) (input : SnapshotInput) : QueueState :=
  { w with tail := w.tail ++ [⟨owner, input⟩] }

/-- A loop that worked on the array in the map keeps it as its own. -/
def detach (source : String) (jobs : List String) : QueueState :=
  match w.activeBySource.get? source with
  | none => w
  | some l =>
    w.putLoop source { l with detached := some (l.detached.getD jobs) }

/-- `dropPending`: a new array in the map. -/
def dropPending (source jobId : String) : QueueState :=
  match w.pendingBySource.get? source with
  | none => w
  | some jobs =>
    let next := jobs.filter (fun candidate => candidate ≠ jobId)
    { w.detach source jobs with
      pendingBySource :=
        if next = [] then
          w.pendingBySource.erase source
        else
          w.pendingBySource.set source next }

/-- Start the loop of a source. -/
def activate (source : String) : QueueState :=
  { w.putLoop source
      { controller := w.controllers, pc := .checking, detached := none } with
    controllers := w.controllers + 1 }

/-- The first source that has pending jobs and no loop. -/
def nextSource : Option String :=
  w.pendingBySource.keys.find? (fun source =>
    (w.activeBySource.get? source).isNone)

end QueueState

/-- The loop of `scheduleProcessing`; each round adds a loop. -/
def scheduleRounds (maxConcurrentSources : Nat) : Nat → QueueState → QueueState
  | 0, w => w
  | rounds + 1, w =>
    if w.activeBySource.size < maxConcurrentSources then
      match w.nextSource with
      | none => w
      | some source =>
        if source = "" then
          w
        else
          scheduleRounds maxConcurrentSources rounds (w.activate source)
    else
      w

def scheduleProcessing (maxConcurrentSources : Nat) (w : QueueState) : QueueState :=
  scheduleRounds maxConcurrentSources maxConcurrentSources w

/-- `queueJob` and `scheduleProcessing`, after the first append of a job. -/
def queueAndSchedule (maxConcurrentSources : Nat) (w : QueueState)
    (job : WorkspaceJobSnapshot) : QueueState :=
  scheduleProcessing maxConcurrentSources
    { w with
      pendingBySource := queueJob w.pendingBySource job
      issued := w.issued ++ [(job.jobId, job.sourceId)] }

/-- The `finally` of `processSource`. -/
def leaveLoop (maxConcurrentSources : Nat) (w : QueueState) (source : String) : QueueState :=
  scheduleProcessing maxConcurrentSources
    { w with
      activeBySource := w.activeBySource.erase source
      pendingBySource :=
        if (w.pendingBySource.get? source).getD [] = [] then
          w.pendingBySource.erase source
        else
          w.pendingBySource }

/-- `pending.shift()` on the array of a loop, which then looks at the next
job. -/
def shiftJobs (w : QueueState) (source : String) (l : Loop) : QueueState :=
  match l.detached with
  | some jobs =>
    w.putLoop source { l with pc := .checking, detached := some jobs.tail }
  | none =>
    { w.putLoop source { l with pc := .checking } with
      pendingBySource :=
        match w.pendingBySource.get? source with
        | none => w.pendingBySource
        | some jobs => w.pendingBySource.set source jobs.tail }

/-- Why `retry` refuses a job. -/
def retryRefusal (job : WorkspaceJobSnapshot) : Option String :=
  if job.state ≠ .failed ∧ job.state ≠ .cancelled then
    some s!"Workspace job is not retryable from state: {job.state.asStr}"
  else
    match job.lastError with
    | none => none
    | some error =>
      if ["auth-required", "force-required", "confirmation-required"].contains error.code then
        some s!"Workspace job retry requires manual intervention: {error.code}"
      else if !error.retryable then
        some s!"Workspace job is not retryable: {error.code}"
      else
        none

inductive Action where
  | enqueueCall (request : EnqueueWorkspaceJobRequest)
  | enqueueTurn (jobId now : String)
  | enqueueResume
  | retryCall (jobId newJobId idempotencyKey now : String)
  | retryResume (jobId : String)
  | cancel (jobId now : String)
  | report (jobId : String) (update : WorkspaceJobRuntimeUpdate) (now : String)
  | loopCheck (source now : String)
  | loopStart (source : String)
  | executorReturns (source : String) (result : WorkspaceJobExecutionResult)
      (cleanup : CleanupFields) (now : String)
  | executorThrows (source message now : String)
  | loopShift (source : String)
  | commit (eventId : String)
  | appendFails (message now : String)
deriving DecidableEq

section Turns

variable (maxConcurrentSources : Nat) (w : QueueState)

/-- A call of `enqueue` waits for the ones before it. -/
def enqueueCall (request : EnqueueWorkspaceJobRequest) : Option QueueState :=
  if request.scope.sourceIds.contains request.sourceId then
    some { w with waiting := w.waiting ++ [request] }
  else
    none

/-- A job id that `randomUUID` may give: no job has it. -/
def QueueState.isFresh (jobId : String) : Bool :=
  (w.journal.getJob jobId).isNone && w.tail.all (fun a => a.input.jobId ≠ jobId)

def enqueueTurn (jobId now : String) : Option QueueState :=
  match w.enqueuing, w.waiting with
  | none, request :: rest =>
    let w := { w with waiting := rest }
    match w.journal.findExisting request.scope with
    | .error _ => some w
    | .ok (some _) => some w
    | .ok none =>
      if w.isFresh jobId then
        some <|
          { w with enqueuing := some .appending }.issue .enqueue
            (queuedInput request.scope jobId now)
      else
        none
  | _, _ => none

def enqueueResume : Option QueueState :=
  match w.enqueuing with
  | some (.appended job) =>
    some (queueAndSchedule maxConcurrentSources { w with enqueuing := none } job)
  | _ => none

def retryCall (jobId newJobId idempotencyKey now : String) : Option QueueState :=
  match w.journal.getJob jobId with
  | none => none
  | some job =>
    if (retryRefusal job).isNone && w.isFresh newJobId then
      some (w.issue .retry (retriedInput job newJobId idempotencyKey now))
    else
      none

/-- A retry goes on after its append. -/
def retryResume (jobId : String) : Option QueueState :=
  match w.retried.find? (fun job => job.jobId = jobId) with
  | none => none
  | some job =>
    some <| queueAndSchedule maxConcurrentSources
      { w with retried := w.retried.filter (fun job => job.jobId ≠ jobId) } job

def cancel (jobId now : String) : Option QueueState :=
  match w.journal.getJob jobId with
  | none => none
  | some job =>
    if job.state.isTerminal then
      some w
    else if job.state = .queued then
      some ((w.dropPending job.sourceId jobId).issue .cancel (queuedCancelledInput job now))
    else
      match w.activeBySource.get? job.sourceId with
      | none => some w
      | some l => some { w with aborted := w.aborted ++ [(l.controller, jobId)] }

/-- `reportRuntimeUpdate`, which only an executor that was handed the job can
call. -/
def report (jobId : String) (update : WorkspaceJobRuntimeUpdate) (now : String) :
    Option QueueState :=
  if w.handed.any (fun p => p.1 = jobId) then
    match w.journal.getJob jobId with
    | none => none
    | some current =>
      if current.state.isTerminal then
        some w
      else
        some (w.issue .report (reportInput current update now))
  else
    none

/-- A loop looks at the head of its array. -/
def loopCheck (source now : String) : Option QueueState :=
  match w.activeBySource.get? source with
  | none => none
  | some l =>
    if l.pc = .checking then
      match w.jobsOf source l with
      | [] => some (leaveLoop maxConcurrentSources w source)
      | jobId :: _ =>
        match w.journal.getJob jobId with
        | none => some (leaveLoop maxConcurrentSources w source)
        | some current =>
          if current.state = .queued then
            some <| (w.putLoop source { l with pc := .starting jobId }).issue
              (.start source) (runningInput current now)
          else
            some (w.putLoop source { l with pc := .settled jobId })
    else
      none

def loopStart (source : String) : Option QueueState :=
  match w.activeBySource.get? source with
  | none => none
  | some l =>
    match l.pc with
    | .started jobId =>
      some
        { w.putLoop source { l with pc := .executing jobId } with
          handed := w.handed ++ [(jobId, l.controller)]
          history := w.history ++ [.start jobId] }
    | _ => none

def executorReturns (source : String) (result : WorkspaceJobExecutionResult)
    (cleanup : CleanupFields) (now : String) : Option QueueState :=
  match w.activeBySource.get? source with
  | none => none
  | some l =>
    match l.pc with
    | .executing jobId =>
      match w.journal.getJob jobId with
      | none => none
      | some latest =>
        if latest.state = .completed then
          some (w.putLoop source { l with pc := .settled jobId })
        else
          some <| (w.putLoop source { l with pc := .settling jobId false }).issue
            (.settle source) (resultInput latest result cleanup now)
    | _ => none

/-- The `catch` of `runJob`. -/
def catchInto (source : String) (l : Loop) (jobId message now : String) : Option QueueState :=
  match w.journal.getJob jobId with
  | none => none
  | some latest =>
    some <| (w.putLoop source { l with pc := .settling jobId true }).issue (.settle source)
      (caughtInput latest (w.aborted.any (fun p => p.1 = l.controller)) message now)

def executorThrows (source message now : String) : Option QueueState :=
  match w.activeBySource.get? source with
  | none => none
  | some l =>
    match l.pc with
    | .executing jobId => catchInto w source l jobId message now
    | _ => none

def loopShift (source : String) : Option QueueState :=
  match w.activeBySource.get? source with
  | none => none
  | some l =>
    match l.pc with
    | .settled _ => some (shiftJobs w source l)
    | _ => none

def QueueState.loopWritten (source : String) (pc : LoopPc) : QueueState :=
  match w.activeBySource.get? source with
  | none => w
  | some l => w.putLoop source { l with pc := pc }

/-- The code that awaited an append learns that it is written. -/
def QueueState.notify (owner : Owner) (snapshot : WorkspaceJobSnapshot) : QueueState :=
  match owner with
  | .enqueue => { w with enqueuing := some (.appended snapshot) }
  | .retry => { w with retried := w.retried ++ [snapshot] }
  | .cancel => w
  | .report => w
  | .start source => w.loopWritten source (.started snapshot.jobId)
  | .settle source => w.loopWritten source (.settled snapshot.jobId)

/-- The first append takes effect. -/
def commit (eventId : String) : Option QueueState :=
  match w.tail with
  | [] => none
  | a :: rest =>
    match w.journal.appendSnapshotSerial a.input eventId with
    | .error _ => none
    | .ok (snapshot, journal) =>
      some <| QueueState.notify
        { w with
          journal := journal
          tail := rest
          history := w.history ++ [.snapshot snapshot.jobId snapshot.state] }
        a.owner snapshot

/-- The first append fails, and the code that awaited it has an exception. -/
def appendFails (message now : String) : Option QueueState :=
  match w.tail with
  | [] => none
  | a :: rest =>
    let w := { w with tail := rest }
    match a.owner with
    | .enqueue => some { w with enqueuing := none }
    | .retry => some w
    | .cancel => some w
    | .report => some w
    | .start source => some (leaveLoop maxConcurrentSources w source)
    | .settle source =>
      match w.activeBySource.get? source with
      | none => none
      | some l =>
        match l.pc with
        | .settling jobId false => catchInto w source l jobId message now
        | _ => some (leaveLoop maxConcurrentSources w source)

end Turns

def step (maxConcurrentSources : Nat) (w : QueueState) : Action → Option QueueState
  | .enqueueCall request => enqueueCall w request
  | .enqueueTurn jobId now => enqueueTurn w jobId now
  | .enqueueResume => enqueueResume maxConcurrentSources w
  | .retryCall jobId newJobId idempotencyKey now =>
    retryCall w jobId newJobId idempotencyKey now
  | .retryResume jobId => retryResume maxConcurrentSources w jobId
  | .cancel jobId now => cancel w jobId now
  | .report jobId update now => report w jobId update now
  | .loopCheck source now => loopCheck maxConcurrentSources w source now
  | .loopStart source => loopStart w source
  | .executorReturns source result cleanup now =>
    executorReturns w source result cleanup now
  | .executorThrows source message now => executorThrows w source message now
  | .loopShift source => loopShift w source
  | .commit eventId => commit w eventId
  | .appendFails message now => appendFails maxConcurrentSources w message now

/-- A queue over a journal that was read, before any call: the queued jobs are
put into their arrays and the first loops are started. -/
def QueueState.initialize (maxConcurrentSources : Nat) (journal : Journal) : QueueState :=
  let queued := journal.getCurrentJobs.filter (fun job => job.state = .queued)
  scheduleProcessing maxConcurrentSources
    { journal := journal
      tail := []
      pendingBySource := queued.foldl queueJob InsertionMap.empty
      activeBySource := InsertionMap.empty
      controllers := 0
      waiting := []
      enqueuing := none
      retried := []
      aborted := []
      handed := []
      history :=
        journal.getCurrentJobs.map (fun job => .snapshot job.jobId job.state)
      issued := queued.map (fun job => (job.jobId, job.sourceId)) }

/-- A request for the source `main` under a key. -/
def mainRequest (idempotencyKey : String) : EnqueueWorkspaceJobRequest :=
  { kind := .sourceSync
    sourceId := "main"
    idempotencyKey := idempotencyKey
    batchId := none
    sourceIds := none }

def enqueued (idempotencyKey jobId : String) : List Action :=
  [.enqueueCall (mainRequest idempotencyKey), .enqueueTurn jobId "t", .commit jobId, .enqueueResume]

end WorkspaceJobs
end StudioWeb
