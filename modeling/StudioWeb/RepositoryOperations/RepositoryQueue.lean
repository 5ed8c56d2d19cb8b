import StudioWeb.Library.LabelledRuns
import StudioWeb.Library.ServedQueue
import StudioWeb.RepositoryOperations.OperationJournal
import Mathlib.Logic.Function.Basic

/-!
# The repository operation queue

The queue of `repository-operation-queue.ts` as a transition system.  Its code runs in
turns: a turn runs without interruption up to the next `await`, and any other turn may
come in between.  Each action below is one turn, or an append of the journal that takes
effect.  The journal takes appends in the order of their issue; here any that is issued
may be the next, so that the runs of the source are among those of this system.

An enqueue is looked at from where it waits for the ones before it; what it checks of the
saved path comes before that and changes nothing.  A retry that refreshes the identity of
the repository is such an enqueue too, some turns later.

A loop reads the array of its repository, which no other code replaces.  One that is
started looks at its first operation in a turn of its own here.

`history` and `returned` record what has happened: what each repository's array was given
and what was taken from it, and the enqueues that have answered.
-/

namespace StudioWeb
namespace RepositoryOperations

open ServedQueue

inductive FakeRepositoryExecutionResult where
  | noChanges
  | committedLocal (commitSha : String)
  | pushed (commitSha : String)
  | failed (failureReason : String)
  | pushPending (failureReason commitSha : String)
  | blocked (failureReason : String)
deriving DecidableEq

structure Transition where
  state : StudioOperationState
  failureReason : Option String
  commitSha : Option String
deriving DecidableEq

/-- What `runOperation` persists after an execution: the first transition and the rest. -/
def settlements (resumingPush : Bool) :
    FakeRepositoryExecutionResult → Transition × List Transition
  | .noChanges => (⟨.noChanges, none, none⟩, [])
  | .failed reason => (⟨.failed, some reason, none⟩, [])
  | .committedLocal sha =>
    if resumingPush then (⟨.committedLocal, none, some sha⟩, [])
    else (⟨.committing, none, none⟩, [⟨.committedLocal, none, some sha⟩])
  | .pushPending reason sha =>
    if resumingPush then (⟨.pushPending, some reason, some sha⟩, [])
    else (⟨.committing, none, none⟩,
      [⟨.committed, none, some sha⟩, ⟨.pushPending, some reason, some sha⟩])
  | .blocked reason => (⟨.blocked, some reason, none⟩, [])
  | .pushed sha =>
    if resumingPush then (⟨.pushing, none, some sha⟩, [⟨.pushed, none, some sha⟩])
    else (⟨.committing, none, none⟩,
      [⟨.committed, none, some sha⟩, ⟨.pushing, none, some sha⟩, ⟨.pushed, none, some sha⟩])

def requireValue (value : Option String) (label : String) : Except String String :=
  match nonEmpty value with
  | none => .error s!"Operation {label} is missing"
  | some text => .ok text

def requireRepositoryId (operation : StudioOperationSnapshot) : Except String String :=
  if operation.journalSchemaVersion ≠ .v2 then
    .error "Legacy operation has no repository identity"
  else
    requireValue operation.repositoryId "repository ID"

def toScope (operation : StudioOperationSnapshot) : Except String StudioOperationScope :=
  if operation.journalSchemaVersion ≠ .v2 then
    .error "Legacy operation cannot be replayed without repository identity"
  else do
    let repositoryId ← requireValue operation.repositoryId "repository ID"
    let fingerprint ← requireValue operation.repositoryFingerprint "repository fingerprint"
    let revision ← requireValue operation.repositoryConfigRevision "repository config revision"
    return {
      workspaceId := operation.workspaceId
      repositoryId := repositoryId
      repositoryFingerprint := fingerprint
      repositoryConfigRevision := revision
      relativePath := operation.relativePath
      repositoryRelativePath := operation.repositoryRelativePath
      languageId := operation.languageId
      contentHash := operation.contentHash
      idempotencyKey := operation.idempotencyKey
      savedAt := operation.savedAt }

def shouldRefreshRepositoryIdentity (operation : StudioOperationSnapshot) : Bool :=
  if operation.state ≠ .failed ∧ operation.state ≠ .blocked then
    false
  else
    let reason := operation.failureReason.getD ""
    "Unknown repository:".toList.isPrefixOf reason.toList ||
      decide (reason ∈ ["Operation repository is no longer registered",
        "Repository fingerprint changed since the operation was queued",
        "Repository ownership changed since the operation was queued",
        "Repository-relative path changed since the operation was queued"])

/-- A call of `runOperation`. -/
structure Run where
  operation : StudioOperationSnapshot
  scope : StudioOperationScope
deriving DecidableEq

def Run.resumingPush (run : Run) : Bool :=
  decide (run.operation.state ∈ [.committed, .pushing, .pushPending])

inductive LoopPc where
  /-- Nothing: it looks at its next operation. -/
  | checking
  /-- The append of `validating`. -/
  | validating (run : Run)
  /-- The check of the ownership. -/
  | owning (run : Run)
  | executing (run : Run)
  /-- The append of a transition after the execution, or in place of it. -/
  | settling (run : Run) (started : Bool) (next : Transition) (rest : List Transition)
  /-- The return of the run, whose last append has taken effect. -/
  | settled (run : Run) (started : Bool)
  /-- The return of a run that threw. -/
  | failing
deriving DecidableEq

def LoopPc.run? : LoopPc → Option Run
  | .checking => none
  | .validating run => some run
  | .owning run => some run
  | .executing run => some run
  | .settling run _ _ _ => some run
  | .settled run _ => some run
  | .failing => none

/-- A call of `processRepository`. -/
structure RepositoryLoop where
  repositoryId : String
  pc : LoopPc
deriving DecidableEq

inductive Enqueuing where
  | appending (scope : StudioOperationScope) (operationId : String)
  | appended (scope : StudioOperationScope) (queued : StudioOperationSnapshot)
deriving DecidableEq

structure EnqueueStudioOperationResponse where
  operation : StudioOperationSnapshot
  reusedExisting : Bool
deriving DecidableEq

structure QueueState where
  journal : OperationJournal
  pendingByRepository : InsertionMap String (List StudioOperationSnapshot)
  activeRepositories : List String
  loops : Nat → Option RepositoryLoop
  loopCount : Nat
  /-- The enqueues that wait for their turn. -/
  enqueueTail : List StudioOperationScope
  enqueuing : Option Enqueuing
  returned : List (StudioOperationScope × EnqueueStudioOperationResponse)
  history : List (String × Entry String)

inductive Action where
  /-- A call of `enqueue` gets in line. -/
  | enqueue (scope : StudioOperationScope)
  /-- The first in line looks its key up. -/
  | enqueueTurn (operationId : String)
  | enqueueCommit (timestamp : String)
  | enqueueFails
  /-- The enqueue adds its operation and returns. -/
  | enqueueReturns
  | retry (operationId : String)
  /-- A loop goes on after what it awaited. -/
  | loopTurn (i : Nat)
  /-- The append that a loop awaits takes effect. -/
  | loopCommit (i : Nat) (timestamp : String)
  | loopFails (i : Nat)
  | owned (i : Nat)
  | disowned (i : Nat) (message : String)
  | executed (i : Nat) (result : FakeRepositoryExecutionResult)
  | threw (i : Nat) (message : String)
deriving DecidableEq

inductive RetryOutcome where
  | rejected (message : String)
  | pending (operation : StudioOperationSnapshot)
  | queued (operation : StudioOperationSnapshot)
  /-- The identity of the repository is refreshed: an enqueue follows. -/
  | refreshing (operation : StudioOperationSnapshot)
deriving DecidableEq

namespace QueueState

def pending (s : QueueState) (repositoryId : String) : List StudioOperationSnapshot :=
  (s.pendingByRepository.get? repositoryId).getD []

def setLoop (s : QueueState) (i : Nat) (l : Option RepositoryLoop) : QueueState :=
  { s with loops := Function.update s.loops i l }

/-- A loop awaits something else. -/
def goto (s : QueueState) (i : Nat) (repositoryId : String) (pc : LoopPc) : QueueState :=
  s.setLoop i (some ⟨repositoryId, pc⟩)

def note (s : QueueState) (repositoryId : String) (entry : Entry String) : QueueState :=
  { s with history := s.history ++ [(repositoryId, entry)] }

def setPending (s : QueueState) (repositoryId : String)
    (pending : List StudioOperationSnapshot) : QueueState :=
  { s with pendingByRepository := s.pendingByRepository.set repositoryId pending }

def queueOperation (s : QueueState) (entry : String → Entry String)
    (operation : StudioOperationSnapshot) : Except String QueueState := do
  let repositoryId ← requireRepositoryId operation
  return (s.setPending repositoryId (s.pending repositoryId ++ [operation])).note repositoryId
    (entry operation.operationId)

def startLoop (s : QueueState) (repositoryId : String) : QueueState :=
  { s with
    activeRepositories := s.activeRepositories ++ [repositoryId]
    loops := Function.update s.loops s.loopCount (some ⟨repositoryId, .checking⟩)
    loopCount := s.loopCount + 1 }

/-- The loop of `scheduleProcessing`, with fuel for every repository. -/
def schedule (maxConcurrentRepositories : Nat) : Nat → QueueState → QueueState
  | 0, s => s
  | fuel + 1, s =>
    if s.activeRepositories.length < maxConcurrentRepositories then
      match s.pendingByRepository.keys.find? fun r => r ∉ s.activeRepositories with
      | none => s
      | some r => if r = "" then s else schedule maxConcurrentRepositories fuel (s.startLoop r)
    else
      s

def scheduleProcessing (maxConcurrentRepositories : Nat) (s : QueueState) : QueueState :=
  schedule maxConcurrentRepositories s.pendingByRepository.size s

/-- The `finally` of `processRepository`. -/
def endLoop (maxConcurrentRepositories : Nat) (s : QueueState) (i : Nat)
    (repositoryId : String) : QueueState :=
  let s := s.setLoop i none
  let s := { s with activeRepositories := s.activeRepositories.erase repositoryId }
  let s := if (s.pending repositoryId).isEmpty then
      { s with pendingByRepository := s.pendingByRepository.erase repositoryId }
    else s
  s.scheduleProcessing maxConcurrentRepositories

def loopTurn (maxConcurrentRepositories : Nat) (s : QueueState) (i : Nat)
    (l : RepositoryLoop) : Option QueueState :=
  match l.pc with
  | .checking =>
    match s.pending l.repositoryId with
    | [] => some (s.endLoop maxConcurrentRepositories i l.repositoryId)
    | next :: _ =>
      match toScope next with
      | .error _ => some (s.goto i l.repositoryId .failing)
      | .ok scope =>
        some ((s.note l.repositoryId (.run next.operationId)).goto i l.repositoryId
          (.validating ⟨next, scope⟩))
  | .settled _ _ =>
    some ((s.setPending l.repositoryId (s.pending l.repositoryId).tail).goto i
      l.repositoryId .checking)
  | .failing => some (s.endLoop maxConcurrentRepositories i l.repositoryId)
  | _ => none

def LoopPc.appending? : LoopPc → Option (Run × Transition × LoopPc)
  | .validating run => some (run, ⟨.validating, none, none⟩, .owning run)
  | .settling run started transition [] => some (run, transition, .settled run started)
  | .settling run started transition (next :: rest) =>
    some (run, transition, .settling run started next rest)
  | _ => none

/-- The append of a loop takes effect, or finds a conflict. -/
def loopCommit (s : QueueState) (i : Nat) (l : RepositoryLoop) (timestamp : String) :
    Option QueueState :=
  match LoopPc.appending? l.pc with
  | none => none
  | some (run, transition, after) =>
    match s.journal.appendTransitionSerial run.scope run.operation.operationId
        transition.state timestamp transition.failureReason transition.commitSha with
    | .error _ => some (s.goto i l.repositoryId .failing)
    | .ok (journal, _) => some ({ s with journal := journal }.goto i l.repositoryId after)

/-- The ownership is as it was, and the executor is called. -/
def owned (s : QueueState) (i : Nat) (l : RepositoryLoop) : Option QueueState :=
  match l.pc with
  | .owning run =>
    match s.journal.getOperation run.operation.operationId with
    | none =>
      let message := s!"Operation not found: {run.operation.operationId}"
      some (s.goto i l.repositoryId (.settling run false ⟨.failed, some message, none⟩ []))
    | some _ =>
      some ((s.note l.repositoryId (.started run.operation.operationId)).goto i
        l.repositoryId (.executing run))
  | _ => none

def disowned (s : QueueState) (i : Nat) (l : RepositoryLoop) (message : String) :
    Option QueueState :=
  match l.pc with
  | .owning run =>
    some (s.goto i l.repositoryId (.settling run false ⟨.failed, some message, none⟩ []))
  | _ => none

def executed (s : QueueState) (i : Nat) (l : RepositoryLoop)
    (result : FakeRepositoryExecutionResult) : Option QueueState :=
  match l.pc with
  | .executing run =>
    let (transition, rest) := settlements run.resumingPush result
    some (s.goto i l.repositoryId (.settling run true transition rest))
  | _ => none

def threw (s : QueueState) (i : Nat) (l : RepositoryLoop) (message : String) : Option QueueState :=
  match l.pc with
  | .executing run =>
    some (s.goto i l.repositoryId (.settling run true ⟨.failed, some message, none⟩ []))
  | _ => none

/-- The first in line. -/
def enqueueTurn (s : QueueState) (operationId : String) : Option QueueState :=
  match s.enqueuing, s.enqueueTail with
  | none, scope :: rest =>
    let s := { s with enqueueTail := rest }
    match s.journal.findExisting scope with
    | .error _ => some s
    | .ok (some existing) =>
      some { s with returned := s.returned ++ [(scope, ⟨existing, true⟩)] }
    | .ok none => some { s with enqueuing := some (.appending scope operationId) }
  | _, _ => none

def enqueueCommit (s : QueueState) (timestamp : String) : Option QueueState :=
  match s.enqueuing with
  | some (.appending scope operationId) =>
    match s.journal.appendTransitionSerial scope operationId .queued timestamp none none with
    | .error _ => some { s with enqueuing := none }
    | .ok (journal, queued) =>
      some { s with journal := journal, enqueuing := some (.appended scope queued) }
  | _ => none

def enqueueFails (s : QueueState) : Option QueueState :=
  match s.enqueuing with
  | some (.appending _ _) => some { s with enqueuing := none }
  | _ => none

def enqueueReturns (maxConcurrentRepositories : Nat) (s : QueueState) : Option QueueState :=
  match s.enqueuing with
  | some (.appended scope queued) =>
    match { s with enqueuing := none }.queueOperation .accepted queued with
    | .error _ => some { s with enqueuing := none }
    | .ok s =>
      some { s.scheduleProcessing maxConcurrentRepositories with
        returned := s.returned ++ [(scope, ⟨queued, false⟩)] }
  | _ => none

/-- `retry`, up to its return or to the refresh of the identity. -/
def retry (maxConcurrentRepositories : Nat) (s : QueueState) (operationId : String) :
    QueueState × RetryOutcome :=
  match s.journal.getOperation operationId with
  | none => (s, .rejected s!"Operation not found: {operationId}")
  | some operation =>
    if operation.state ∉ [.pushPending, .blocked, .failed] then
      let state := operation.state.asStr
      (s, .rejected s!"Operation is not retryable from state: {state}")
    else if operation.journalSchemaVersion = .v1 then
      (s, .refreshing operation)
    else if shouldRefreshRepositoryIdentity operation then
      (s, .refreshing operation)
    else
      match requireRepositoryId operation with
      | .error message => (s, .rejected message)
      | .ok repositoryId =>
        match (s.pending repositoryId).find? fun c => c.operationId = operationId with
        | some candidate => (s, .pending candidate)
        | none =>
          match s.queueOperation .requeued operation with
          | .error message => (s, .rejected message)
          | .ok s => (s.scheduleProcessing maxConcurrentRepositories, .queued operation)

def step (maxConcurrentRepositories : Nat) (s : QueueState) : Action → Option QueueState
  | .enqueue scope => some { s with enqueueTail := s.enqueueTail ++ [scope] }
  | .enqueueTurn operationId => s.enqueueTurn operationId
  | .enqueueCommit timestamp => s.enqueueCommit timestamp
  | .enqueueFails => s.enqueueFails
  | .enqueueReturns => s.enqueueReturns maxConcurrentRepositories
  | .retry operationId => some (s.retry maxConcurrentRepositories operationId).1
  | .loopTurn i => (s.loops i).bind fun l => s.loopTurn maxConcurrentRepositories i l
  | .loopCommit i timestamp => (s.loops i).bind fun l => s.loopCommit i l timestamp
  | .loopFails i =>
    (s.loops i).bind fun l =>
      (LoopPc.appending? l.pc).map fun _ => s.goto i l.repositoryId .failing
  | .owned i => (s.loops i).bind fun l => s.owned i l
  | .disowned i message => (s.loops i).bind fun l => s.disowned i l message
  | .executed i result => (s.loops i).bind fun l => s.executed i l result
  | .threw i message => (s.loops i).bind fun l => s.threw i l message

def ofJournal (journal : OperationJournal) : QueueState :=
  ⟨journal, .empty, [], fun _ => none, 0, [], none, [], []⟩

/-- The operations that were under way when the journal was written. -/
def replayed (journal : OperationJournal) : List StudioOperationSnapshot :=
  (journal.getCurrentOperations.filter fun operation =>
    decide (operation.journalSchemaVersion = .v2) && isNonTerminal operation.state).mergeSort
      fun left right => decide (left.createdSequence ≤ right.createdSequence)

/-- The queue as it starts. -/
def ofReplayed (maxConcurrentRepositories : Nat) (journal : OperationJournal) :
    Except String QueueState :=
  ((replayed journal).foldlM (fun (s : QueueState) operation => s.queueOperation .accepted operation)
    (ofJournal journal)).map (scheduleProcessing maxConcurrentRepositories)

end QueueState

end RepositoryOperations
end StudioWeb
