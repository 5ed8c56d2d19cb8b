import StudioWeb.WorkspaceJobs.BatchKeys
import StudioWeb.WorkspaceJobs.QueueFrames
import StudioWeb.Library.RustPrelude

/-!
# The batch enqueue of the workspace job queue

`enqueueBatch` of `workspace-job-queue.ts` enqueues one job for each source of a
request, under a key derived from the request's key and the source, and returns
the batch as the journal has it.  A request without a `batchId` is given a random
one.

A call is taken in one piece here: an enqueue holds the queue's turn from its
lookup to its append.  What happens to the jobs after a call is left to the
journal's other writers.
-/

namespace StudioWeb
namespace WorkspaceJobs

open LabelledRuns List

structure WorkspaceJobBatchSnapshot where
  batchId : String
  sourceIds : List String
  totalSources : Nat
  completedSources : Nat
  failedSources : Nat
  cancelledSources : Nat
  awaitingConfirmationSources : Nat
  runningSources : Nat
  queuedSources : Nat
  state : WorkspaceJobState
  jobs : List WorkspaceJobSnapshot
deriving DecidableEq

structure EnqueueWorkspaceJobResponse where
  job : WorkspaceJobSnapshot
  reusedExisting : Bool
deriving DecidableEq

structure EnqueueWorkspaceBatchRequest where
  kind : WorkspaceJobKind
  batchId : Option String
  sourceIds : List String
  idempotencyKey : String
deriving DecidableEq

structure EnqueueWorkspaceBatchResponse where
  batch : WorkspaceJobBatchSnapshot
  jobs : List WorkspaceJobSnapshot
  reusedExisting : Bool
deriving DecidableEq

def terminalBySource (jobs : List WorkspaceJobSnapshot) :
    InsertionMap String WorkspaceJobSnapshot :=
  jobs.foldl (fun bySource job =>
      match bySource.get? job.sourceId with
      | none => bySource.set job.sourceId job
      | some current =>
        if current.createdSequence < job.createdSequence then
          bySource.set job.sourceId job
        else
          bySource)
    InsertionMap.empty

def summarizeBatchState (running awaitingConfirmation queued failed completed
    cancelled : Nat) : WorkspaceJobState :=
  if 0 < running then .running
  else if 0 < awaitingConfirmation then .awaitingConfirmation
  else if 0 < queued then .queued
  else if 0 < failed then .failed
  else if 0 < completed ∧ cancelled = 0 then .completed
  else .cancelled

def Journal.getBatch (journal : Journal) (batchId : String) : Option WorkspaceJobBatchSnapshot :=
  let jobs := journal.getCurrentJobs.filter (fun job => job.batchId = batchId)
  if jobs = [] then
    none
  else
    let sourceIds := (jobs.flatMap (fun job => job.sourceIds)).eraseDups
    let newest := (terminalBySource jobs).values
    let count := fun state : WorkspaceJobState =>
      newest.countP (fun job => job.state = state)
    some
      { batchId := batchId
        sourceIds := sourceIds
        totalSources := sourceIds.length
        completedSources := count .completed
        failedSources := count .failed
        cancelledSources := count .cancelled
        awaitingConfirmationSources := count .awaitingConfirmation
        runningSources := count .running
        queuedSources := count .queued
        state :=
          summarizeBatchState (count .running) (count .awaitingConfirmation)
            (count .queued) (count .failed) (count .completed) (count .cancelled)
        jobs := jobs }

theorem isSome_getBatch_iff {journal : Journal} {batchId : String} :
    (journal.getBatch batchId).isSome = true ↔
      ∃ jobId job, journal.getJob jobId = some job ∧ job.batchId = batchId := by
  have hjobs : journal.getCurrentJobs.filter (fun job => job.batchId = batchId) ≠ [] ↔
      ∃ jobId job, journal.getJob jobId = some job ∧ job.batchId = batchId := by
    constructor
    · intro hne
      obtain ⟨job, hmem⟩ := exists_mem_of_ne_nil _ hne
      obtain ⟨hmem, hbatch⟩ := mem_filter.mp hmem
      exact ⟨job.jobId, job, Journal.mem_getCurrentJobs.mp hmem, of_decide_eq_true hbatch⟩
    · rintro ⟨jobId, job, hjob, hbatch⟩
      have hid := Journal.jobId_of_getJob hjob
      have hmem : job ∈ journal.getCurrentJobs := by
        refine Journal.mem_getCurrentJobs.mpr ?_
        rw [hid]
        exact hjob
      exact ne_nil_of_mem (mem_filter.mpr ⟨hmem, decide_eq_true hbatch⟩)
  rw [← hjobs]
  unfold Journal.getBatch
  by_cases hnil : journal.getCurrentJobs.filter (fun job => job.batchId = batchId) = []
  · simp [hnil]
  · simp [hnil]

def Journal.requireBatch (journal : Journal) (batchId : String) :
    Except String WorkspaceJobBatchSnapshot :=
  match journal.getBatch batchId with
  | none => .error s!"Workspace job batch not found: {batchId}"
  | some batch => .ok batch

/-- `createHash('sha256')` and `digest('hex')`. -/
structure Sha256 where
  hex : String → String
  hex_digits : ∀ text, ∀ c ∈ (hex text).toList, isHexDigit c = true

/-- What a call draws: the random id of a batch without one, the random ids of
jobs and events, the time. -/
structure Draws where
  batchId : String
  jobId : Journal → String
  eventId : Journal → String
  now : Journal → String
  jobId_fresh : ∀ journal : Journal, journal.getJob (jobId journal) = none

section Enqueue

variable (draws : Draws) (journal : Journal)

def enqueue (request : EnqueueWorkspaceJobRequest) :
    Except String (EnqueueWorkspaceJobResponse × Journal) := do
  if request.scope.sourceIds.contains request.sourceId = false then
    .error "Workspace job source scope must include the primary sourceId"
  else
    match ← journal.findExisting request.scope with
    | some existing => .ok (⟨existing, true⟩, journal)
    | none =>
      let (snapshot, after) ← journal.appendSnapshotSerial
        (queuedInput request.scope (draws.jobId journal) (draws.now journal))
        (draws.eventId journal)
      .ok (⟨snapshot, false⟩, after)

variable (sha256 : Sha256) (request : EnqueueWorkspaceBatchRequest)

def EnqueueWorkspaceBatchRequest.itemKey (sourceId : String) : String :=
  sha256.hex s!"{request.idempotencyKey}\u0000{sourceId}"

/-- The request `enqueueBatch` makes for a source. -/
def EnqueueWorkspaceBatchRequest.item (batchId sourceId : String) : EnqueueWorkspaceJobRequest :=
  { kind := request.kind
    sourceId := sourceId
    idempotencyKey := request.itemKey sha256 sourceId
    batchId := some batchId
    sourceIds := some request.sourceIds }

/-- The loop of `enqueueBatch`. -/
def enqueueItems (batchId : String) :
    List String → Journal → Except String (List WorkspaceJobSnapshot × Bool × Journal)
  | [], journal => .ok ([], true, journal)
  | sourceId :: sourceIds, journal => do
    let (response, journal) ← enqueue draws journal (request.item sha256 batchId sourceId)
    let (jobs, reusedExisting, journal) ← enqueueItems batchId sourceIds journal
    .ok (response.job :: jobs, response.reusedExisting && reusedExisting, journal)

def enqueueBatch : Except String (EnqueueWorkspaceBatchResponse × Journal) := do
  let batchId := request.batchId.getD draws.batchId
  let (jobs, reusedExisting, journal) ←
    enqueueItems draws sha256 request batchId request.sourceIds journal
  let batch ← journal.requireBatch batchId
  .ok (⟨batch, jobs, reusedExisting⟩, journal)

end Enqueue

section Lookups

variable {journal : Journal}

theorem findExisting_eq_none_iff {scope : WorkspaceJobScope} :
    journal.findExisting scope = .ok none ↔
      journal.idempotencyIndex.get? scope.idempotencyKey = none := by
  unfold Journal.findExisting
  cases hkey : journal.idempotencyIndex.get? scope.idempotencyKey with
  | none => simp
  | some =>
    constructor
    · intro h
      obtain ⟨_, _, h⟩ := Rust.bind_eq_ok_iff.mp h
      cases h
    · intro h
      cases h

theorem findExisting_eq_some_iff {scope : WorkspaceJobScope} {job : WorkspaceJobSnapshot} :
    journal.findExisting scope = .ok (some job) ↔
      journal.idempotencyIndex.get? scope.idempotencyKey = some job ∧
        job.toWorkspaceJobScope = scope := by
  unfold Journal.findExisting
  cases hkey : journal.idempotencyIndex.get? scope.idempotencyKey with
  | none => simp
  | some =>
    constructor
    · intro h
      obtain ⟨_, hscope, h⟩ := Rust.bind_eq_ok_iff.mp h
      cases h
      unfold assertScopeMatch at hscope
      split_ifs at hscope with heq
      exact ⟨rfl, heq⟩
    · rintro ⟨h, hscope⟩
      cases h
      simp only [assertScopeMatch, hscope, if_true]
      rfl

theorem append_of_unused {input : SnapshotInput} {eventId : String}
    (hkey : journal.idempotencyIndex.get? input.idempotencyKey = none)
    (hjob : journal.getJob input.jobId = none) :
    journal.appendSnapshotSerial input eventId = .ok ((journal.nextEvent input eventId).job,
        journal.record (journal.nextEvent input eventId)) := by
  have hcheck : journal.checkScope input = .ok () := by
    simp only [Journal.checkScope, hkey, hjob]
    rfl
  simp only [Journal.appendSnapshotSerial, hcheck]
  rfl

end Lookups

section Calls

variable {draws : Draws} {journal after : Journal}
variable {request : EnqueueWorkspaceJobRequest}
variable {response : EnqueueWorkspaceJobResponse}

/-- The snapshot of an enqueue's first append. -/
def enqueuedEvent (draws : Draws) (journal : Journal)
    (request : EnqueueWorkspaceJobRequest) : WorkspaceJobJournalEvent :=
  journal.nextEvent (queuedInput request.scope (draws.jobId journal) (draws.now journal))
    (draws.eventId journal)

theorem enqueue_eq_ok (h : enqueue draws journal request = .ok (response, after)) :
    (response.reusedExisting = true ∧ after = journal ∧
        journal.findExisting request.scope = .ok (some response.job)) ∨
      (response.reusedExisting = false ∧ journal.findExisting request.scope = .ok none ∧
        response.job = (enqueuedEvent draws journal request).job ∧
        after = journal.record (enqueuedEvent draws journal request)) := by
  unfold enqueue at h
  split_ifs at h
  obtain ⟨found, hfound, h⟩ := Rust.bind_eq_ok_iff.mp h
  cases found with
  | some =>
    cases h
    exact Or.inl ⟨rfl, rfl, hfound⟩
  | none =>
    obtain ⟨⟨snapshot, journal'⟩, happend, h⟩ := Rust.bind_eq_ok_iff.mp h
    cases h
    obtain ⟨hjob, hafter⟩ := appendSnapshotSerial_eq_ok happend
    exact Or.inr ⟨rfl, hfound, hjob, hafter⟩

theorem enqueue_of_existing {job : WorkspaceJobSnapshot}
    (hsource : request.sourceId ∈ request.scope.sourceIds)
    (hkey : journal.idempotencyIndex.get? request.idempotencyKey = some job)
    (hscope : job.toWorkspaceJobScope = request.scope) :
    enqueue draws journal request = .ok (⟨job, true⟩, journal) := by
  have hfound : journal.findExisting request.scope = .ok (some job) :=
    findExisting_eq_some_iff.mpr ⟨hkey, hscope⟩
  have hcontains : request.scope.sourceIds.contains request.sourceId = true :=
    contains_iff_mem.mpr hsource
  simp only [enqueue, hcontains, hfound]
  rfl

end Calls

end WorkspaceJobs
end StudioWeb
