import StudioWeb.Library.InsertionMap
import Mathlib.Data.List.Sort

/-!
# The repository operation journal

The records of `operation-journal.ts` and the state that the journal keeps in memory: the
events in order, the newest snapshot of each operation, and the newest snapshot under
each idempotency key.  The state carries that every operation is the one under its key.

`appendTransitionSerial` is an append whose write succeeds.
-/

namespace StudioWeb
namespace RepositoryOperations

inductive StudioOperationState where
  | queued
  | validating
  | noChanges
  | committing
  | committed
  | committedLocal
  | pushing
  | pushed
  | failed
  | pushPending
  | blocked
deriving DecidableEq

def StudioOperationState.asStr : StudioOperationState → String
  | .queued => "queued"
  | .validating => "validating"
  | .noChanges => "no-changes"
  | .committing => "committing"
  | .committed => "committed"
  | .committedLocal => "committed-local"
  | .pushing => "pushing"
  | .pushed => "pushed"
  | .failed => "failed"
  | .pushPending => "push-pending"
  | .blocked => "blocked"

def isNonTerminal : StudioOperationState → Bool
  | .queued | .validating | .committing | .committed | .pushing | .pushPending => true
  | .noChanges | .committedLocal | .pushed | .failed | .blocked => false

inductive JournalSchemaVersion where
  | v1
  | v2
deriving DecidableEq

/-- What an operation is about; a scope is always of version 2. -/
structure StudioOperationScope where
  workspaceId : String
  repositoryId : String
  repositoryFingerprint : String
  repositoryConfigRevision : String
  relativePath : String
  repositoryRelativePath : String
  languageId : String
  contentHash : String
  idempotencyKey : String
  savedAt : String
deriving DecidableEq

/-- The fields that an event and a snapshot have in common. -/
structure StudioOperation where
  journalSchemaVersion : JournalSchemaVersion
  operationId : String
  workspaceId : String
  repositoryId : Option String
  repositoryFingerprint : Option String
  repositoryConfigRevision : Option String
  relativePath : String
  repositoryRelativePath : String
  languageId : String
  contentHash : String
  idempotencyKey : String
  savedAt : String
  state : StudioOperationState
  commitSha : Option String
  failureReason : Option String
deriving DecidableEq

structure StudioOperationEvent extends StudioOperation where
  sequence : Nat
  timestamp : String
deriving DecidableEq

structure StudioOperationSnapshot extends StudioOperation where
  createdAt : String
  updatedAt : String
  createdSequence : Nat
  lastSequence : Nat
deriving DecidableEq

/-- JavaScript takes the empty text for absent. -/
def nonEmpty (value : Option String) : Option String := value.filter fun text => text != ""

def StudioOperationScope.operation (scope : StudioOperationScope) (operationId : String)
    (state : StudioOperationState) (failureReason commitSha : Option String) : StudioOperation :=
  { journalSchemaVersion := .v2
    operationId := operationId
    workspaceId := scope.workspaceId
    repositoryId := some scope.repositoryId
    repositoryFingerprint := some scope.repositoryFingerprint
    repositoryConfigRevision := some scope.repositoryConfigRevision
    relativePath := scope.relativePath
    repositoryRelativePath := scope.repositoryRelativePath
    languageId := scope.languageId
    contentHash := scope.contentHash
    idempotencyKey := scope.idempotencyKey
    savedAt := scope.savedAt
    state := state
    commitSha := nonEmpty commitSha
    failureReason := nonEmpty failureReason }

def StudioOperation.isOf (operation : StudioOperation) (scope : StudioOperationScope) : Bool :=
  decide (operation.journalSchemaVersion = .v2) &&
    decide (operation.workspaceId = scope.workspaceId) &&
    decide (operation.repositoryId = some scope.repositoryId) &&
    decide (operation.repositoryFingerprint = some scope.repositoryFingerprint) &&
    decide (operation.repositoryConfigRevision = some scope.repositoryConfigRevision) &&
    decide (operation.relativePath = scope.relativePath) &&
    decide (operation.repositoryRelativePath = scope.repositoryRelativePath) &&
    decide (operation.languageId = scope.languageId) &&
    decide (operation.contentHash = scope.contentHash)

def snapshotOf (previous : Option StudioOperationSnapshot) (event : StudioOperationEvent) :
    StudioOperationSnapshot :=
  { event.toStudioOperation with
    commitSha := event.commitSha.or ((previous.bind fun p => nonEmpty p.commitSha))
    createdAt := (previous.map StudioOperationSnapshot.createdAt).getD event.timestamp
    updatedAt := event.timestamp
    createdSequence := (previous.map StudioOperationSnapshot.createdSequence).getD event.sequence
    lastSequence := event.sequence }

structure OperationJournal where
  events : List StudioOperationEvent
  operations : InsertionMap String StudioOperationSnapshot
  idempotencyIndex : InsertionMap String StudioOperationSnapshot
  lastSequence : Nat
  keyed : ∀ id operation, operations.get? id = some operation → operation.operationId = id ∧
      ∃ o, idempotencyIndex.get? operation.idempotencyKey = some o ∧ o.operationId = id

namespace OperationJournal

/-- The state of a journal without a file. -/
def empty : OperationJournal := ⟨[], .empty, .empty, 0, by simp⟩

theorem keyed_set (journal : OperationJournal) {snapshot : StudioOperationSnapshot}
    (hkey : ∀ o, journal.idempotencyIndex.get? snapshot.idempotencyKey = some o →
      o.operationId = snapshot.operationId)
    (id : String) (operation : StudioOperationSnapshot)
    (hget : (journal.operations.set snapshot.operationId snapshot).get? id = some operation) :
    operation.operationId = id ∧
      ∃ o, (journal.idempotencyIndex.set snapshot.idempotencyKey snapshot).get?
          operation.idempotencyKey = some o ∧ o.operationId = id := by
  rw [InsertionMap.get?_set] at hget
  split at hget
  · next hid =>
    cases hget
    refine ⟨hid.symm, snapshot, ?_, hid.symm⟩
    simp
  · next hid =>
    obtain ⟨hoperation, o, ho, hoid⟩ := journal.keyed id operation hget
    refine ⟨hoperation, ?_⟩
    rw [InsertionMap.get?_set]
    split
    · next hsame =>
      rw [hsame] at ho
      exact absurd (hoid.symm.trans (hkey o ho)) hid
    · exact ⟨o, ho, hoid⟩

def record (journal : OperationJournal) (event : StudioOperationEvent)
    (snapshot : StudioOperationSnapshot)
    (hkey : ∀ o, journal.idempotencyIndex.get? snapshot.idempotencyKey = some o →
      o.operationId = snapshot.operationId) :
    OperationJournal :=
  { events := journal.events ++ [event]
    operations := journal.operations.set snapshot.operationId snapshot
    idempotencyIndex := journal.idempotencyIndex.set snapshot.idempotencyKey snapshot
    lastSequence := event.sequence
    keyed := journal.keyed_set hkey }

def getOperation (journal : OperationJournal) (operationId : String) :
    Option StudioOperationSnapshot :=
  journal.operations.get? operationId

def findExisting (journal : OperationJournal) (scope : StudioOperationScope) :
    Except String (Option StudioOperationSnapshot) :=
  match journal.idempotencyIndex.get? scope.idempotencyKey with
  | none => .ok none
  | some existing =>
    if existing.isOf scope then
      .ok (some existing)
    else
      .error ("Idempotency key conflict for a different workspace, path, language, or " ++
        "content hash")

def getCurrentOperations (journal : OperationJournal) : List StudioOperationSnapshot :=
  journal.operations.values.mergeSort fun left right =>
    decide (left.createdSequence ≤ right.createdSequence)

def keepsScope (previous : StudioOperationSnapshot) (scope : StudioOperationScope) : Bool :=
  previous.isOf scope && decide (previous.idempotencyKey = scope.idempotencyKey) &&
    decide (previous.savedAt = scope.savedAt)

def appendTransitionSerial (journal : OperationJournal) (scope : StudioOperationScope)
    (operationId : String) (state : StudioOperationState) (timestamp : String)
    (failureReason commitSha : Option String) :
    Except String (OperationJournal × StudioOperationSnapshot) :=
  if hkey : ∀ o, journal.idempotencyIndex.get? scope.idempotencyKey = some o →
      o.operationId = operationId ∧ o.isOf scope = true then
    let previous := journal.operations.get? operationId
    if previous.all fun p => keepsScope p scope then
      let event : StudioOperationEvent :=
        { scope.operation operationId state failureReason commitSha with
          sequence := journal.lastSequence + 1
          timestamp := timestamp }
      let snapshot := snapshotOf previous event
      .ok (journal.record event snapshot fun o ho => (hkey o ho).1, snapshot)
    else
      .error "Operation scope cannot change between journal transitions"
  else
    .error ("Idempotency key conflict for a different operation, workspace, path, language, " ++
      "or content hash")

section Facts

variable {journal next : OperationJournal}

theorem operationId_unique {first second : StudioOperationSnapshot} {id id' : String}
    (hfirst : journal.getOperation id = some first)
    (hsecond : journal.getOperation id' = some second)
    (hkey : first.idempotencyKey = second.idempotencyKey) : id = id' := by
  obtain ⟨_, o, ho, hid⟩ := journal.keyed id first hfirst
  obtain ⟨_, o', ho', hid'⟩ := journal.keyed id' second hsecond
  rw [hkey, ho'] at ho
  cases ho
  exact hid.symm.trans hid'

/-- What an append that goes through has found, and what it leaves. -/
structure Appended (journal : OperationJournal) (scope : StudioOperationScope)
    (operationId : String) (state : StudioOperationState) (next : OperationJournal)
    (snapshot : StudioOperationSnapshot) : Prop where
  operations : next.operations = journal.operations.set operationId snapshot
  index : next.idempotencyIndex = journal.idempotencyIndex.set scope.idempotencyKey snapshot
  id : snapshot.operationId = operationId
  key : snapshot.idempotencyKey = scope.idempotencyKey
  repository : snapshot.repositoryId = some scope.repositoryId
  version : snapshot.journalSchemaVersion = .v2
  state : snapshot.state = state
  /-- The key was free, or the operation's. -/
  owner : ∀ o, journal.idempotencyIndex.get? scope.idempotencyKey = some o →
    o.operationId = operationId
  /-- The operation was new, or had the key. -/
  kept : ∀ o, journal.operations.get? operationId = some o → o.idempotencyKey = scope.idempotencyKey

theorem appended_of_ok
    {scope : StudioOperationScope} {operationId : String} {state : StudioOperationState}
    {timestamp : String} {failureReason commitSha : Option String}
    {snapshot : StudioOperationSnapshot}
    (h : journal.appendTransitionSerial scope operationId state timestamp failureReason
      commitSha = .ok (next, snapshot)) :
    Appended journal scope operationId state next snapshot := by
  unfold appendTransitionSerial at h
  split at h
  · next hkey =>
    dsimp only at h
    split at h
    · next hprevious =>
      cases h
      refine ⟨rfl, rfl, rfl, rfl, rfl, rfl, rfl, fun o ho => (hkey o ho).1, ?_⟩
      intro o ho
      rw [ho, Option.all_some] at hprevious
      simp only [keepsScope, Bool.and_eq_true, decide_eq_true_eq] at hprevious
      exact hprevious.1.2
    · cases h
  · cases h

variable {scope : StudioOperationScope} {operationId : String} {state : StudioOperationState}
  {snapshot : StudioOperationSnapshot}

section

variable (h : Appended journal scope operationId state next snapshot)
include h

theorem Appended.index_stable
    {key : String} {o : StudioOperationSnapshot} (ho : journal.idempotencyIndex.get? key = some o) :
    ∃ o', next.idempotencyIndex.get? key = some o' ∧ o'.operationId = o.operationId := by
  rw [h.index, InsertionMap.get?_set]
  split
  · next hkey =>
    rw [hkey] at ho
    exact ⟨snapshot, rfl, h.id.trans (h.owner o ho).symm⟩
  · exact ⟨o, ho, rfl⟩

theorem Appended.operations_stable
    {id : String} (hthere : (journal.operations.get? id).isSome = true) :
    (next.operations.get? id).isSome = true := by
  rw [h.operations, InsertionMap.get?_set]
  split
  · rfl
  · exact hthere

theorem Appended.operations_other {id : String} (hne : id ≠ operationId) :
    next.operations.get? id = journal.operations.get? id := by
  rw [h.operations, InsertionMap.get?_set, if_neg hne]

theorem Appended.operations_self :
    next.operations.get? operationId = some snapshot := by
  rw [h.operations, InsertionMap.get?_set, if_pos rfl]

theorem Appended.index_self :
    next.idempotencyIndex.get? scope.idempotencyKey = some snapshot := by
  rw [h.index, InsertionMap.get?_set, if_pos rfl]

theorem Appended.index_none
    (hthere : (journal.operations.get? operationId).isSome = true) {key : String}
    (hfree : journal.idempotencyIndex.get? key = none) : next.idempotencyIndex.get? key = none := by
  obtain ⟨o, ho⟩ := Option.isSome_iff_exists.mp hthere
  rw [h.index, InsertionMap.get?_set]
  split
  · next hkey =>
    obtain ⟨_, o', ho', _⟩ := journal.keyed operationId o ho
    rw [h.kept o ho, ← hkey, hfree] at ho'
    cases ho'
  · exact hfree

theorem Appended.new_of_free (hfree : journal.idempotencyIndex.get? scope.idempotencyKey = none) :
    journal.operations.get? operationId = none := by
  cases ho : journal.operations.get? operationId with
  | none => rfl
  | some o =>
    obtain ⟨_, o', ho', _⟩ := journal.keyed operationId o ho
    rw [h.kept o ho, hfree] at ho'
    cases ho'

end

end Facts

end OperationJournal

end RepositoryOperations
end StudioWeb
