import StudioWeb.RepositoryOperations.RepositoryQueue

/-!
# What a turn of the repository operation queue does

Every turn is one of the cases of `Turn`, each with what the code has found when it takes
it.
-/

namespace StudioWeb
namespace RepositoryOperations

open ServedQueue

namespace QueueState

/-- An operation is put at the end of the array of its repository. -/
def push (s : QueueState) (repositoryId : String) (entry : String → Entry String)
    (operation : StudioOperationSnapshot) : QueueState :=
  (s.setPending repositoryId (s.pending repositoryId ++ [operation])).note repositoryId
    (entry operation.operationId)

theorem queueOperation_of_ok
    {s : QueueState} {entry : String → Entry String} {operation : StudioOperationSnapshot}
    {repositoryId : String} (h : requireRepositoryId operation = .ok repositoryId) :
    s.queueOperation entry operation = .ok (s.push repositoryId entry operation) := by
  simp only [queueOperation, h]
  rfl

theorem queueOperation_of_error
    {s : QueueState} {entry : String → Entry String} {operation : StudioOperationSnapshot}
    {message : String} (h : requireRepositoryId operation = .error message) :
    s.queueOperation entry operation = .error message := by
  simp only [queueOperation, h]
  rfl

end QueueState

def StudioOperationState.isRetryable (state : StudioOperationState) : Prop :=
  state ∈ [StudioOperationState.pushPending, .blocked, .failed]

inductive Turn (max : Nat) (s : QueueState) (a : Action) :
    QueueState → Prop
  | same : Turn max s a s
  | enqueue (scope : StudioOperationScope) :
      Turn max s a { s with enqueueTail := s.enqueueTail ++ [scope] }
  | refused (rest : List StudioOperationScope) :
      Turn max s a { s with enqueueTail := rest }
  | reused (scope : StudioOperationScope) (rest : List StudioOperationScope)
      (existing : StudioOperationSnapshot)
      (hfound : s.journal.idempotencyIndex.get? scope.idempotencyKey = some existing) :
      Turn max s a { s with
        enqueueTail := rest, returned := s.returned ++ [(scope, ⟨existing, true⟩)] }
  | holds (scope : StudioOperationScope) (rest : List StudioOperationScope)
      (operationId : String)
      (hfree : s.journal.idempotencyIndex.get? scope.idempotencyKey = none) :
      Turn max s a { s with
        enqueueTail := rest, enqueuing := some (.appending scope operationId) }
  | enqueueEnds : Turn max s a { s with enqueuing := none }
  | enqueueCommits (scope : StudioOperationScope) (operationId : String)
      (journal : OperationJournal) (queued : StudioOperationSnapshot)
      (henqueuing : s.enqueuing = some (.appending scope operationId))
      (happended : OperationJournal.Appended s.journal scope operationId .queued journal queued) :
      Turn max s a { s with
        journal := journal, enqueuing := some (.appended scope queued) }
  | enqueueReturns (scope : StudioOperationScope) (queued : StudioOperationSnapshot)
      (repositoryId : String)
      (henqueuing : s.enqueuing = some (.appended scope queued))
      (hrepository : requireRepositoryId queued = .ok repositoryId) :
      Turn max s a
        { ({ s with enqueuing := none }.push repositoryId .accepted queued).scheduleProcessing
            max with
          returned := s.returned ++ [(scope, ⟨queued, false⟩)] }
  | requeues (operation : StudioOperationSnapshot) (operationId repositoryId : String)
      (hoperation : s.journal.getOperation operationId = some operation)
      (hstate : operation.state.isRetryable)
      (hrepository : requireRepositoryId operation = .ok repositoryId)
      (hnew : ∀ c ∈ s.pending repositoryId, c.operationId ≠ operationId) :
      Turn max s a ((s.push repositoryId .requeued operation).scheduleProcessing max)
  | ends (i : Nat) (l : RepositoryLoop)
      (hl : s.loops i = some l)
      (hpc : l.pc = .failing ∨ (l.pc = .checking ∧ s.pending l.repositoryId = [])) :
      Turn max s a (s.endLoop max i l.repositoryId)
  | runs (i : Nat) (l : RepositoryLoop) (next : StudioOperationSnapshot)
      (rest : List StudioOperationSnapshot) (scope : StudioOperationScope)
      (hl : s.loops i = some l)
      (hpc : l.pc = .checking)
      (hpending : s.pending l.repositoryId = next :: rest)
      (hscope : toScope next = .ok scope) :
      Turn max s a ((s.note l.repositoryId (.run next.operationId)).goto i
        l.repositoryId (.validating ⟨next, scope⟩))
  | shifts (i : Nat) (l : RepositoryLoop) (run : Run) (started : Bool)
      (hl : s.loops i = some l)
      (hpc : l.pc = .settled run started) :
      Turn max s a
        ((s.setPending l.repositoryId (s.pending l.repositoryId).tail).goto i l.repositoryId
          .checking)
  | commits (i : Nat) (l : RepositoryLoop) (run : Run) (transition : Transition)
      (after : LoopPc) (journal : OperationJournal) (snapshot : StudioOperationSnapshot)
      (hl : s.loops i = some l)
      (hpc : QueueState.LoopPc.appending? l.pc = some (run, transition, after))
      (happended : OperationJournal.Appended s.journal run.scope run.operation.operationId
        transition.state journal snapshot) :
      Turn max s a ({ s with journal := journal }.goto i l.repositoryId after)
  | aborts (i : Nat) (l : RepositoryLoop)
      (hl : s.loops i = some l) :
      Turn max s a (s.goto i l.repositoryId .failing)
  | starts (i : Nat) (l : RepositoryLoop) (run : Run)
      (hl : s.loops i = some l)
      (hpc : l.pc = .owning run) :
      Turn max s a
        ((s.note l.repositoryId (.started run.operation.operationId)).goto i l.repositoryId
          (.executing run))
  | disowns (i : Nat) (l : RepositoryLoop) (run : Run) (transition : Transition)
      (hl : s.loops i = some l)
      (hpc : l.pc = .owning run)
      (hcause : (∃ message, a = .disowned i message) ∨
        s.journal.getOperation run.operation.operationId = none) :
      Turn max s a (s.goto i l.repositoryId (.settling run false transition []))
  | settles (i : Nat) (l : RepositoryLoop) (run : Run) (transition : Transition)
      (rest : List Transition)
      (hl : s.loops i = some l)
      (hpc : l.pc = .executing run) :
      Turn max s a (s.goto i l.repositoryId (.settling run true transition rest))

section Inversion

variable {max : Nat} {s t : QueueState} {a : Action}

theorem findExisting_cases {journal : OperationJournal} {scope : StudioOperationScope}
    {found : Option StudioOperationSnapshot} (h : journal.findExisting scope = .ok found) :
    journal.idempotencyIndex.get? scope.idempotencyKey = found := by
  unfold OperationJournal.findExisting at h
  cases hget : journal.idempotencyIndex.get? scope.idempotencyKey with
  | none =>
    rw [hget] at h
    cases h
    rfl
  | some =>
    rw [hget] at h
    dsimp only at h
    split at h
    · cases h
      rfl
    · cases h

theorem turn_of_enqueueTurn {operationId : String} (h : s.enqueueTurn operationId = some t) :
    Turn max s a t := by
  unfold QueueState.enqueueTurn at h
  split at h
  · next scope rest _ _ =>
    dsimp only at h
    split at h
    · cases h
      exact .refused rest
    · next existing hfound =>
      cases h
      exact .reused scope rest existing (findExisting_cases hfound)
    · next hfound =>
      cases h
      exact .holds scope rest operationId (findExisting_cases hfound)
  · cases h

theorem turn_of_enqueueCommit {timestamp : String} (h : s.enqueueCommit timestamp = some t) :
    Turn max s a t := by
  unfold QueueState.enqueueCommit at h
  split at h
  · next scope operationId henqueuing =>
    split at h
    · cases h
      exact .enqueueEnds
    · next journal queued hok =>
      cases h
      exact .enqueueCommits scope operationId journal queued henqueuing
        (OperationJournal.appended_of_ok hok)
  · cases h

theorem turn_of_enqueueReturns (h : s.enqueueReturns max = some t) :
    Turn max s a t := by
  unfold QueueState.enqueueReturns at h
  split at h
  · next scope queued henqueuing =>
    cases hrepository : requireRepositoryId queued with
    | error =>
      rw [QueueState.queueOperation_of_error hrepository] at h
      cases h
      exact .enqueueEnds
    | ok repositoryId =>
      rw [QueueState.queueOperation_of_ok hrepository] at h
      cases h
      exact .enqueueReturns scope queued repositoryId henqueuing hrepository
  · cases h

theorem turn_of_retry (operationId : String) :
    Turn max s a (s.retry max operationId).1 := by
  unfold QueueState.retry
  split
  · exact .same
  · next operation hoperation =>
    split
    · exact .same
    · next hstate =>
      split
      · exact .same
      · split
        · exact .same
        · cases hrepository : requireRepositoryId operation with
          | error => exact .same
          | ok repositoryId =>
            dsimp only
            split
            · exact .same
            · next hnone =>
              rw [QueueState.queueOperation_of_ok hrepository]
              refine .requeues operation operationId repositoryId hoperation
                (not_not.mp hstate) hrepository ?_
              intro c hc
              simpa using List.find?_eq_none.mp hnone c hc

variable {l : RepositoryLoop}

theorem turn_of_loopTurn {i : Nat} (hl : s.loops i = some l) (h : s.loopTurn max i l = some t) :
    Turn max s a t := by
  unfold QueueState.loopTurn at h
  split at h
  · next hpc =>
    split at h
    · next hpending =>
      cases h
      exact .ends i l hl (Or.inr ⟨hpc, hpending⟩)
    · next next rest hpending =>
      split at h
      · cases h
        exact .aborts i l hl
      · next scope hscope =>
        cases h
        exact .runs i l next rest scope hl hpc hpending hscope
  · next run started hpc =>
    cases h
    exact .shifts i l run started hl hpc
  · next hpc =>
    cases h
    exact .ends i l hl (Or.inl hpc)
  · cases h

theorem turn_of_loopCommit {i : Nat} {timestamp : String}
    (hl : s.loops i = some l) (h : s.loopCommit i l timestamp = some t) :
    Turn max s a t := by
  unfold QueueState.loopCommit at h
  split at h
  · cases h
  · next run transition after hpc =>
    split at h
    · cases h
      exact .aborts i l hl
    · next journal snapshot hok =>
      cases h
      exact .commits i l run transition after journal snapshot hl hpc
        (OperationJournal.appended_of_ok hok)

theorem turn_of_owned {i : Nat} (hl : s.loops i = some l)
    (h : s.owned i l = some t) : Turn max s a t := by
  unfold QueueState.owned at h
  split at h
  · next run hpc =>
    split at h
    · next hnone =>
      cases h
      exact .disowns i l run _ hl hpc (Or.inr hnone)
    · cases h
      exact .starts i l run hl hpc
  · cases h

/-- **Every turn is one of the cases.** -/
theorem turn_of_step (h : s.step max a = some t) :
    Turn max s a t := by
  cases a with
  | enqueue scope =>
    cases h
    exact .enqueue scope
  | enqueueTurn => exact turn_of_enqueueTurn h
  | enqueueCommit => exact turn_of_enqueueCommit h
  | enqueueFails =>
    simp only [QueueState.step, QueueState.enqueueFails] at h
    split at h
    · cases h
      exact .enqueueEnds
    · cases h
  | enqueueReturns => exact turn_of_enqueueReturns h
  | retry operationId =>
    cases h
    exact turn_of_retry operationId
  | loopTurn =>
    obtain ⟨l, hl, hturn⟩ := Option.bind_eq_some_iff.mp h
    exact turn_of_loopTurn hl hturn
  | loopCommit =>
    obtain ⟨l, hl, hturn⟩ := Option.bind_eq_some_iff.mp h
    exact turn_of_loopCommit hl hturn
  | loopFails i =>
    obtain ⟨l, hl, hturn⟩ := Option.bind_eq_some_iff.mp h
    obtain ⟨_, _, hgoto⟩ := Option.map_eq_some_iff.mp hturn
    cases hgoto
    exact .aborts i l hl
  | owned =>
    obtain ⟨l, hl, hturn⟩ := Option.bind_eq_some_iff.mp h
    exact turn_of_owned hl hturn
  | disowned i message =>
    obtain ⟨l, hl, hturn⟩ := Option.bind_eq_some_iff.mp h
    unfold QueueState.disowned at hturn
    split at hturn
    · next run hpc =>
      cases hturn
      exact .disowns i l run _ hl hpc (Or.inl ⟨message, rfl⟩)
    · cases hturn
  | executed i =>
    obtain ⟨l, hl, hturn⟩ := Option.bind_eq_some_iff.mp h
    unfold QueueState.executed at hturn
    split at hturn
    · next run hpc =>
      cases hturn
      exact .settles i l run _ _ hl hpc
    · cases hturn
  | threw i =>
    obtain ⟨l, hl, hturn⟩ := Option.bind_eq_some_iff.mp h
    unfold QueueState.threw at hturn
    split at hturn
    · next run hpc =>
      cases hturn
      exact .settles i l run _ _ hl hpc
    · cases hturn

/-- What starting a loop keeps, `scheduleProcessing` keeps. -/
theorem scheduleProcessing_induction {motive : QueueState → Prop} (hs : motive s)
    (hstart : ∀ s r, motive s → s.activeRepositories.length < max →
      r ∉ s.activeRepositories → motive (s.startLoop r)) :
    motive (s.scheduleProcessing max) := by
  have hfuel : ∀ fuel s, motive s → motive (QueueState.schedule max fuel s) := by
    intro fuel
    induction fuel with
    | zero => exact fun _ hs => hs
    | succ _ ih =>
      intro s hs
      unfold QueueState.schedule
      split
      · next hlength =>
        split
        · exact hs
        · next r hfind =>
          split
          · exact hs
          · refine ih _ (hstart s r hs hlength ?_)
            simpa using List.find?_some hfind
      · exact hs
  exact hfuel _ s hs

end Inversion

end RepositoryOperations
end StudioWeb
