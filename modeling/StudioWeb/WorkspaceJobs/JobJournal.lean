import StudioWeb.Library.InsertionMap
import StudioWeb.WorkspaceJobs.SanitizeString
import Mathlib.Data.List.Sort

/-!
# The workspace job journal in memory

The records of `workspace-job-journal.ts` and what one append does to the state
the journal keeps: the events in order, the newest snapshot of each job, and the
newest snapshot under each idempotency key.

An append checks the scope of the job against what the journal has, writes a
sanitized snapshot, and only then changes the state.  `appendSnapshotSerial` is
an append whose write succeeds.  The previews of a snapshot are left out: they
are stored and never read.
-/

namespace StudioWeb
namespace WorkspaceJobs

open List

inductive WorkspaceJobKind where
  | saveSync
  | sourceSync
  | scanPreview
  | migration
deriving DecidableEq

inductive WorkspaceJobState where
  | queued
  | running
  | awaitingConfirmation
  | completed
  | cancelled
  | failed
deriving DecidableEq

def WorkspaceJobState.asStr : WorkspaceJobState → String
  | .queued => "queued"
  | .running => "running"
  | .awaitingConfirmation => "awaiting-confirmation"
  | .completed => "completed"
  | .cancelled => "cancelled"
  | .failed => "failed"

/-- `isTerminal` of the queue. -/
def WorkspaceJobState.isTerminal : WorkspaceJobState → Bool
  | .completed | .cancelled | .failed => true
  | .queued | .running | .awaitingConfirmation => false

inductive WorkspaceSyncPhase where
  | queued
  | preflight
  | trustPreview
  | awaitingConfirmation
  | savingConfig
  | syncingSources
  | completed
  | cancelled
  | failed
deriving DecidableEq

structure WorkspaceSyncProgress where
  completedSources : Int
  totalSources : Int
  activeSourceId : Option String
deriving DecidableEq

structure WorkspaceSyncError where
  code : String
  message : String
  sourceId : Option String
  retryable : Bool
deriving DecidableEq

structure WorkspaceJobCleanupMarker where
  required : Bool
  safe : Bool
  reason : Option String
  updatedAt : String
deriving DecidableEq

inductive RecoveryState where
  | none
  | interrupted
  | recovered
deriving DecidableEq

structure WorkspaceJobRetryLineage where
  rootJobId : String
  retryOfJobId : Option String
  attempt : Int
  recoveryState : RecoveryState
deriving DecidableEq

structure WorkspaceJobScope where
  kind : WorkspaceJobKind
  batchId : String
  sourceId : String
  sourceIds : List String
  idempotencyKey : String
deriving DecidableEq

/-- What a caller hands to an append. -/
structure SnapshotInput extends WorkspaceJobScope where
  jobId : String
  state : WorkspaceJobState
  phase : WorkspaceSyncPhase
  startedAt : String
  updatedAt : String
  progress : Option WorkspaceSyncProgress
  lastError : Option WorkspaceSyncError
  cleanupMarker : Option WorkspaceJobCleanupMarker
  retry : WorkspaceJobRetryLineage
deriving DecidableEq

structure WorkspaceJobSnapshot extends SnapshotInput where
  createdAt : String
  createdSequence : Nat
  lastSequence : Nat
deriving DecidableEq

structure WorkspaceJobJournalEvent where
  sequence : Nat
  eventId : String
  timestamp : String
  job : WorkspaceJobSnapshot
deriving DecidableEq

/-- An optional text; JavaScript takes the empty one for absent. -/
def sanitizeOptional (value : Option String) : Option String :=
  value.bind fun text => if text = "" then none else some (sanitizeString text)

def sanitizeProgress (progress : WorkspaceSyncProgress) : WorkspaceSyncProgress :=
  { completedSources := max 0 progress.completedSources
    totalSources := max progress.completedSources progress.totalSources
    activeSourceId := sanitizeOptional progress.activeSourceId }

def sanitizeError (error : WorkspaceSyncError) : WorkspaceSyncError :=
  { code := sanitizeString error.code
    message := sanitizeString error.message
    sourceId := sanitizeOptional error.sourceId
    retryable := error.retryable }

def sanitizeCleanupMarker (marker : WorkspaceJobCleanupMarker) : WorkspaceJobCleanupMarker :=
  { required := marker.required
    safe := marker.safe
    reason := sanitizeOptional marker.reason
    updatedAt := sanitizeString marker.updatedAt }

def sanitizeRetry (retry : WorkspaceJobRetryLineage) : WorkspaceJobRetryLineage :=
  { rootJobId := sanitizeString retry.rootJobId
    retryOfJobId := sanitizeOptional retry.retryOfJobId
    attempt := retry.attempt
    recoveryState := retry.recoveryState }

def SnapshotInput.sanitize (input : SnapshotInput) : SnapshotInput :=
  { kind := input.kind
    batchId := sanitizeString input.batchId
    sourceId := sanitizeString input.sourceId
    sourceIds := input.sourceIds.map sanitizeString
    idempotencyKey := sanitizeString input.idempotencyKey
    jobId := input.jobId
    state := input.state
    phase := input.phase
    startedAt := sanitizeString input.startedAt
    updatedAt := sanitizeString input.updatedAt
    progress := input.progress.map sanitizeProgress
    lastError := input.lastError.map sanitizeError
    cleanupMarker := input.cleanupMarker.map sanitizeCleanupMarker
    retry := sanitizeRetry input.retry }

/-- The state a journal keeps in memory; `jobs` has each job under its id. -/
structure Journal where
  events : List WorkspaceJobJournalEvent
  jobs : InsertionMap String WorkspaceJobSnapshot
  idempotencyIndex : InsertionMap String WorkspaceJobSnapshot
  lastSequence : Nat
  keyed : ∀ jobId job, jobs.get? jobId = some job → job.jobId = jobId

namespace Journal

/-- The state of a journal without a file. -/
def empty : Journal := ⟨[], InsertionMap.empty, InsertionMap.empty, 0, by simp⟩

def getJob (journal : Journal) (jobId : String) : Option WorkspaceJobSnapshot :=
  journal.jobs.get? jobId

theorem jobId_of_getJob {journal : Journal} {jobId : String} {job : WorkspaceJobSnapshot}
    (h : journal.getJob jobId = some job) : job.jobId = jobId := by
  exact journal.keyed jobId job h

/-- `getCurrentJobs`: the newest snapshots in the order of their creation. -/
def getCurrentJobs (journal : Journal) : List WorkspaceJobSnapshot :=
  (journal.jobs.entries.map Prod.snd).mergeSort
    (fun left right => left.createdSequence ≤ right.createdSequence)

theorem mem_getCurrentJobs {journal : Journal} {job : WorkspaceJobSnapshot} :
    job ∈ journal.getCurrentJobs ↔ journal.getJob job.jobId = some job := by
  rw [getCurrentJobs, mem_mergeSort, getJob, InsertionMap.get?_eq_some_iff, mem_map]
  constructor
  · rintro ⟨⟨jobId, job'⟩, hmem, rfl⟩
    have hkey := journal.keyed jobId job' ((InsertionMap.get?_eq_some_iff ..).mpr hmem)
    exact hkey.symm ▸ hmem
  · intro hmem
    exact ⟨(job.jobId, job), hmem, rfl⟩

theorem getCurrentJobs_nodup (journal : Journal) :
    (journal.getCurrentJobs.map (fun job => job.jobId)).Nodup := by
  have hperm := mergeSort_perm (journal.jobs.entries.map Prod.snd)
    (fun left right => left.createdSequence ≤ right.createdSequence)
  have hkeys : (journal.jobs.entries.map Prod.snd).map (fun job => job.jobId) =
      journal.jobs.entries.map Prod.fst := by
    rw [map_map]
    refine map_congr_left ?_
    rintro ⟨jobId, job⟩ hmem
    exact journal.keyed jobId job ((InsertionMap.get?_eq_some_iff ..).mpr hmem)
  refine (hperm.map _).nodup_iff.mpr ?_
  rw [hkeys]
  exact journal.jobs.keys_nodup

end Journal

def assertScopeMatch (existing next : WorkspaceJobScope) : Except String Unit :=
  if existing = next then
    .ok ()
  else
    .error s!"Workspace job idempotency key conflict for {next.idempotencyKey}"

def Journal.findExisting (journal : Journal) (scope : WorkspaceJobScope) :
    Except String (Option WorkspaceJobSnapshot) :=
  match journal.idempotencyIndex.get? scope.idempotencyKey with
  | none => .ok none
  | some existing => do
    assertScopeMatch existing.toWorkspaceJobScope scope
    .ok (some existing)

def Journal.checkScope (journal : Journal) (input : SnapshotInput) :
    Except String Unit := do
  match journal.idempotencyIndex.get? input.idempotencyKey with
  | none => .ok ()
  | some existing =>
    if existing.jobId ≠ input.jobId then
      assertScopeMatch existing.toWorkspaceJobScope input.toWorkspaceJobScope
    else
      .ok ()
  match journal.getJob input.jobId with
  | none => .ok ()
  | some previous =>
    assertScopeMatch previous.toWorkspaceJobScope input.toWorkspaceJobScope

/-- The event an append writes. -/
def Journal.nextEvent (journal : Journal) (input : SnapshotInput)
    (eventId : String) : WorkspaceJobJournalEvent :=
  let sequence := journal.lastSequence + 1
  let previous := journal.getJob input.jobId
  { sequence := sequence
    eventId := eventId
    timestamp := sanitizeString input.updatedAt
    job :=
      { toSnapshotInput := input.sanitize
        createdAt :=
          (previous.map (fun p => p.createdAt)).getD (sanitizeString input.startedAt)
        createdSequence :=
          (previous.map (fun p => p.createdSequence)).getD sequence
        lastSequence := sequence } }

/-- What an event does to the state, once it is written. -/
def Journal.record (journal : Journal) (event : WorkspaceJobJournalEvent) : Journal :=
  { events := journal.events ++ [event]
    jobs := journal.jobs.set event.job.jobId event.job
    idempotencyIndex :=
      journal.idempotencyIndex.set event.job.idempotencyKey event.job
    lastSequence := event.sequence
    keyed := by
      intro jobId job h
      rw [InsertionMap.get?_set] at h
      split_ifs at h with hjobId
      · cases h
        exact hjobId.symm
      · exact journal.keyed jobId job h }

/-- `appendSnapshotSerial` with a write that succeeds. -/
def Journal.appendSnapshotSerial (journal : Journal) (input : SnapshotInput)
    (eventId : String) : Except String (WorkspaceJobSnapshot × Journal) := do
  journal.checkScope input
  let event := journal.nextEvent input eventId
  .ok (event.job, journal.record event)

section Append

variable {journal after : Journal} {input : SnapshotInput} {eventId : String}
variable {snapshot : WorkspaceJobSnapshot}

section

variable (h : journal.appendSnapshotSerial input eventId = .ok (snapshot, after))
include h

theorem appendSnapshotSerial_eq_ok
 :
    snapshot = (journal.nextEvent input eventId).job ∧
      after = journal.record (journal.nextEvent input eventId) := by
  unfold Journal.appendSnapshotSerial at h
  cases hcheck : journal.checkScope input with
  | error =>
    rw [hcheck] at h
    cases h
  | ok =>
    rw [hcheck] at h
    cases h
    exact ⟨rfl, rfl⟩

theorem getJob_of_append (jobId : String) :
    after.getJob jobId =
      if jobId = input.jobId then some snapshot else journal.getJob jobId := by
  obtain ⟨rfl, rfl⟩ := appendSnapshotSerial_eq_ok h
  exact InsertionMap.get?_set _ _ _ _

theorem state_of_append :
    snapshot.jobId = input.jobId ∧ snapshot.state = input.state ∧
      snapshot.sourceId = sanitizeString input.sourceId := by
  obtain ⟨rfl, rfl⟩ := appendSnapshotSerial_eq_ok h
  exact ⟨rfl, rfl, rfl⟩

end

end Append

end WorkspaceJobs
end StudioWeb
