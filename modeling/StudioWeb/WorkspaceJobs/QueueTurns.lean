import StudioWeb.WorkspaceJobs.JobQueue

/-!
# What each turn of the queue can do

One lemma for each action: the states it leads to and what it found before.
`Turn` collects them, and the invariants split a turn by its constructors and
never by the definitions of the actions.

**Results.** `turn_of_step`.
* `cancel_cases`, `report_cases`, `loopCheck_cases`, `loopStart_cases`,
  `executorReturns_cases`, `catchInto_cases`, `loopShift_cases`, `commit_cases`
  and `appendFails_cases` for the turns of the jobs.
* `enqueueTurn_cases`, `enqueueResume_cases`, `retryCall_cases` and
  `retryResume_cases` for the calls that make new ones.
-/

namespace StudioWeb
namespace WorkspaceJobs

open Option

variable {max : Nat} {w t : QueueState}

theorem enqueueCall_cases {request : EnqueueWorkspaceJobRequest}
    (h : enqueueCall w request = some t) : t = { w with waiting := w.waiting ++ [request] } := by
  unfold enqueueCall at h
  split_ifs at h
  exact (some.inj h).symm

structure Fresh (w : QueueState) (jobId : String) : Prop where
  unknown : w.journal.getJob jobId = none
  unissued : ∀ a ∈ w.tail, a.input.jobId ≠ jobId

variable {jobId : String}

theorem fresh_of_isFresh (h : w.isFresh jobId = true) : Fresh w jobId := by
  simp only [QueueState.isFresh, Bool.and_eq_true, isNone_iff_eq_none,
    List.all_eq_true, decide_eq_true_eq] at h
  exact ⟨h.1, h.2⟩

theorem enqueueTurn_cases {jobId now : String} (h : enqueueTurn w jobId now = some t) :
    ∃ request rest, w.enqueuing = none ∧ w.waiting = request :: rest ∧
      (t = { w with waiting := rest } ∨ (Fresh w jobId ∧
          t = { w with
            waiting := rest
            enqueuing := some .appending
            tail := w.tail ++
              [⟨.enqueue, queuedInput request.scope jobId now⟩] })) := by
  unfold enqueueTurn at h
  split at h
  · next request rest henqueuing hwaiting =>
    refine ⟨request, rest, henqueuing, hwaiting, ?_⟩
    dsimp only at h
    split at h
    · exact Or.inl (some.inj h).symm
    · exact Or.inl (some.inj h).symm
    · split_ifs at h with hfresh
      exact Or.inr ⟨fresh_of_isFresh hfresh, (some.inj h).symm⟩
  · cases h

theorem enqueueResume_cases (h : enqueueResume max w = some t) :
    ∃ job, w.enqueuing = some (.appended job) ∧
      t = queueAndSchedule max { w with enqueuing := none } job := by
  unfold enqueueResume at h
  split at h
  · next job hjob => exact ⟨job, hjob, (some.inj h).symm⟩
  · cases h

theorem retryCall_cases {jobId newJobId idempotencyKey now : String}
    (h : retryCall w jobId newJobId idempotencyKey now = some t) :
    ∃ job, w.journal.getJob jobId = some job ∧ Fresh w newJobId ∧
      t = w.issue .retry (retriedInput job newJobId idempotencyKey now) := by
  unfold retryCall at h
  split at h
  · cases h
  · next job hjob =>
    split_ifs at h with hfresh
    rw [Bool.and_eq_true] at hfresh
    exact ⟨job, hjob, fresh_of_isFresh hfresh.2, (some.inj h).symm⟩

theorem retryResume_cases (h : retryResume max w jobId = some t) :
    ∃ job, job ∈ w.retried ∧ job.jobId = jobId ∧ t = queueAndSchedule max
        { w with retried := w.retried.filter (fun job => job.jobId ≠ jobId) } job := by
  unfold retryResume at h
  split at h
  · cases h
  · next job hjob =>
    refine ⟨job, List.mem_of_find?_eq_some hjob, ?_, (some.inj h).symm⟩
    simpa using List.find?_some hjob

theorem cancel_cases {jobId now : String} (h : cancel w jobId now = some t) :
    (t = w ∧ ∀ job, w.journal.getJob jobId = some job → job.state.isTerminal = true ∨
          job.state ≠ .queued ∧ w.activeBySource.get? job.sourceId = none) ∨
      ∃ job, w.journal.getJob jobId = some job ∧ ((job.state = .queued ∧
            t = (w.dropPending job.sourceId jobId).issue .cancel (queuedCancelledInput job now)) ∨
          (job.state.isTerminal = false ∧ job.state ≠ .queued ∧
            ∃ l, w.activeBySource.get? job.sourceId = some l ∧
              t = { w with aborted := w.aborted ++ [(l.controller, jobId)] })) := by
  unfold cancel at h
  split at h
  · cases h
  · next job hjob =>
    split_ifs at h with hterminal hqueued
    · refine Or.inl ⟨(some.inj h).symm, ?_⟩
      intro job' hjob'
      rw [hjob] at hjob'
      cases hjob'
      exact Or.inl hterminal
    · exact Or.inr ⟨job, hjob, Or.inl ⟨hqueued, (some.inj h).symm⟩⟩
    · split at h
      · next hnone =>
        refine Or.inl ⟨(some.inj h).symm, ?_⟩
        intro job' hjob'
        rw [hjob] at hjob'
        cases hjob'
        exact Or.inr ⟨hqueued, hnone⟩
      · next l hl =>
        refine Or.inr ⟨job, hjob, Or.inr ⟨?_, hqueued, l, hl, ?_⟩⟩
        · simpa using hterminal
        · exact (some.inj h).symm

theorem report_cases {update : WorkspaceJobRuntimeUpdate} {now : String}
    (h : report w jobId update now = some t) :
    t = w ∨ ∃ current, w.journal.getJob jobId = some current ∧
        current.state.isTerminal = false ∧ jobId ∈ w.handed.map Prod.fst ∧
        t = w.issue .report (reportInput current update now) := by
  unfold report at h
  split_ifs at h with hhanded
  split at h
  · cases h
  · next current hcurrent =>
    split_ifs at h with hterminal
    · exact Or.inl (some.inj h).symm
    · refine Or.inr ⟨current, hcurrent, by simpa using hterminal, ?_, ?_⟩
      · rw [List.any_eq_true] at hhanded
        obtain ⟨p, hp, hpj⟩ := hhanded
        rw [decide_eq_true_eq] at hpj
        exact hpj ▸ List.mem_map_of_mem hp
      · exact (some.inj h).symm

theorem loopCheck_cases {source now : String} (h : loopCheck max w source now = some t) :
    ∃ l, w.activeBySource.get? source = some l ∧ l.pc = .checking ∧ (t = leaveLoop max w source ∧
          (∀ jobId rest, w.jobsOf source l = jobId :: rest → w.journal.getJob jobId = none) ∨
        ∃ jobId rest current, w.jobsOf source l = jobId :: rest ∧
          w.journal.getJob jobId = some current ∧
          ((current.state = .queued ∧ t = (w.putLoop source { l with pc := .starting jobId }).issue
                (.start source) (runningInput current now)) ∨
            (current.state ≠ .queued ∧
              t = w.putLoop source { l with pc := .settled jobId }))) := by
  unfold loopCheck at h
  split at h
  · cases h
  · next l hl =>
    split_ifs at h with hpc
    refine ⟨l, hl, hpc, ?_⟩
    split at h
    · next hjobs =>
      refine Or.inl ⟨(some.inj h).symm, ?_⟩
      intro jobId rest hcons
      rw [hjobs] at hcons
      cases hcons
    · next jobId rest hjobs =>
      split at h
      · next hnone =>
        refine Or.inl ⟨(some.inj h).symm, ?_⟩
        intro jobId' rest' hcons
        rw [hjobs] at hcons
        cases hcons
        exact hnone
      · next current hcurrent =>
        refine Or.inr ⟨jobId, rest, current, hjobs, hcurrent, ?_⟩
        split_ifs at h with hqueued
        · exact Or.inl ⟨hqueued, (some.inj h).symm⟩
        · exact Or.inr ⟨hqueued, (some.inj h).symm⟩

theorem loopStart_cases {source : String} (h : loopStart w source = some t) :
    ∃ l jobId, w.activeBySource.get? source = some l ∧ l.pc = .started jobId ∧
      t = { w.putLoop source { l with pc := .executing jobId } with
        handed := w.handed ++ [(jobId, l.controller)]
        history := w.history ++ [.start jobId] } := by
  unfold loopStart at h
  split at h
  · cases h
  · next l hl =>
    split at h
    · next jobId hpc => exact ⟨l, jobId, hl, hpc, (some.inj h).symm⟩
    · cases h

theorem executorReturns_cases {source now : String} {result : WorkspaceJobExecutionResult}
    {cleanup : CleanupFields} (h : executorReturns w source result cleanup now = some t) :
    ∃ l jobId latest, w.activeBySource.get? source = some l ∧
      l.pc = .executing jobId ∧ w.journal.getJob jobId = some latest ∧
      (t = w.putLoop source { l with pc := .settled jobId } ∨
        t = (w.putLoop source { l with pc := .settling jobId false }).issue
          (.settle source) (resultInput latest result cleanup now)) := by
  unfold executorReturns at h
  split at h
  · cases h
  · next l hl =>
    split at h
    · next jobId hpc =>
      split at h
      · cases h
      · next latest hlatest =>
        refine ⟨l, jobId, latest, hl, hpc, hlatest, ?_⟩
        split_ifs at h
        · exact Or.inl (some.inj h).symm
        · exact Or.inr (some.inj h).symm
    · cases h

theorem catchInto_cases {source jobId message now : String} {l : Loop}
    (h : catchInto w source l jobId message now = some t) :
    ∃ latest aborted, w.journal.getJob jobId = some latest ∧
      t = (w.putLoop source { l with pc := .settling jobId true }).issue
        (.settle source) (caughtInput latest aborted message now) := by
  unfold catchInto at h
  split at h
  · cases h
  · next latest hlatest => exact ⟨latest, _, hlatest, (some.inj h).symm⟩

theorem executorThrows_cases {source message now : String}
    (h : executorThrows w source message now = some t) :
    ∃ l jobId, w.activeBySource.get? source = some l ∧ l.pc = .executing jobId ∧
      catchInto w source l jobId message now = some t := by
  unfold executorThrows at h
  split at h
  · cases h
  · next l hl =>
    split at h
    · next jobId hpc => exact ⟨l, jobId, hl, hpc, h⟩
    · cases h

theorem loopShift_cases {source : String} (h : loopShift w source = some t) :
    ∃ l jobId, w.activeBySource.get? source = some l ∧ l.pc = .settled jobId ∧
      t = shiftJobs w source l := by
  unfold loopShift at h
  split at h
  · cases h
  · next l hl =>
    split at h
    · next jobId hpc => exact ⟨l, jobId, hl, hpc, (some.inj h).symm⟩
    · cases h

/-- The state after the first append took effect, before the code that awaited it
goes on. -/
def QueueState.written (w : QueueState) (rest : List Append)
    (snapshot : WorkspaceJobSnapshot) (journal : Journal) : QueueState :=
  { w with
    journal := journal
    tail := rest
    history := w.history ++ [.snapshot snapshot.jobId snapshot.state] }

theorem stateOf_written {a : Append} {rest : List Append} {eventId : String}
    {snapshot : WorkspaceJobSnapshot} {journal : Journal} (happend :
      w.journal.appendSnapshotSerial a.input eventId = .ok (snapshot, journal))
    (jobId : String) :
    (w.written rest snapshot journal).stateOf jobId =
      if jobId = a.input.jobId then some a.input.state else w.stateOf jobId := by
  have hget : (w.written rest snapshot journal).stateOf jobId =
      (journal.getJob jobId).map (fun job => job.state) := rfl
  rw [hget, getJob_of_append happend]
  split_ifs
  · exact congrArg some (state_of_append happend).2.1
  · rfl

theorem commit_cases {eventId : String} (h : commit w eventId = some t) :
    ∃ a rest snapshot journal, w.tail = a :: rest ∧
      w.journal.appendSnapshotSerial a.input eventId = .ok (snapshot, journal) ∧
      t = (w.written rest snapshot journal).notify a.owner snapshot := by
  unfold commit at h
  split at h
  · cases h
  · next a rest htail =>
    split at h
    · cases h
    · next snapshot journal happend =>
      exact ⟨a, rest, snapshot, journal, htail, happend, (some.inj h).symm⟩

theorem appendFails_cases {message now : String} (h : appendFails max w message now = some t) :
    ∃ a rest, w.tail = a :: rest ∧ ((a.owner.source? = none ∧ (t = { w with tail := rest } ∨
            t = { w with tail := rest, enqueuing := none })) ∨
        ∃ source, a.owner.source? = some source ∧
          (t = leaveLoop max { w with tail := rest } source ∨ ∃ l jobId, a.owner = .settle source ∧
              w.activeBySource.get? source = some l ∧
              l.pc = .settling jobId false ∧
              catchInto { w with tail := rest } source l jobId message now =
                some t)) := by
  unfold appendFails at h
  split at h
  · cases h
  · next a rest htail =>
    refine ⟨a, rest, htail, ?_⟩
    cases howner : a.owner with
    | enqueue =>
      rw [howner] at h
      exact Or.inl ⟨rfl, Or.inr (some.inj h).symm⟩
    | retry =>
      rw [howner] at h
      exact Or.inl ⟨rfl, Or.inl (some.inj h).symm⟩
    | cancel =>
      rw [howner] at h
      exact Or.inl ⟨rfl, Or.inl (some.inj h).symm⟩
    | report =>
      rw [howner] at h
      exact Or.inl ⟨rfl, Or.inl (some.inj h).symm⟩
    | start source =>
      rw [howner] at h
      exact Or.inr ⟨source, rfl, Or.inl (some.inj h).symm⟩
    | settle source =>
      rw [howner] at h
      refine Or.inr ⟨source, rfl, ?_⟩
      dsimp only at h
      split at h
      · cases h
      · next l hl =>
        split at h
        · next jobId hpc => exact Or.inr ⟨l, jobId, rfl, hl, hpc, h⟩
        · exact Or.inl (some.inj h).symm

/-- What `runJob` writes in the end: the same job, in a state that is not
`queued`. -/
structure Settles (latest : WorkspaceJobSnapshot) (input : SnapshotInput) :
    Prop where
  jobId : input.jobId = latest.jobId
  sourceId : input.sourceId = latest.sourceId
  state : input.state ≠ .queued

theorem settles_resultInput (latest : WorkspaceJobSnapshot) (result : WorkspaceJobExecutionResult)
    (cleanup : CleanupFields) (now : String) :
    Settles latest (resultInput latest result cleanup now) := by
  cases result <;>
    exact ⟨rfl, rfl, by simp [resultInput, SnapshotInput.become]⟩

theorem settles_caughtInput
    (latest : WorkspaceJobSnapshot) (aborted : Bool) (message now : String) :
    Settles latest (caughtInput latest aborted message now) := by
  unfold caughtInput
  split <;> exact ⟨rfl, rfl, by simp [SnapshotInput.become]⟩

def Action.endsExecution (source : String) : Action → Prop
  | .executorReturns source' _ _ _ => source' = source
  | .executorThrows source' _ _ => source' = source
  | _ => False

inductive Turn (max : Nat) (w : QueueState) : Action → QueueState → Prop
  | call (request : EnqueueWorkspaceJobRequest) :
      Turn max w (.enqueueCall request)
        { w with waiting := w.waiting ++ [request] }
  | refuse
      {jobId now : String} {request : EnqueueWorkspaceJobRequest}
      {rest : List EnqueueWorkspaceJobRequest}
      (hwaiting : w.waiting = request :: rest) :
      Turn max w (.enqueueTurn jobId now) { w with waiting := rest }
  | enqueue
      {jobId now : String} {request : EnqueueWorkspaceJobRequest}
      {rest : List EnqueueWorkspaceJobRequest}
      (henqueuing : w.enqueuing = none)
      (hwaiting : w.waiting = request :: rest)
      (hfresh : Fresh w jobId) :
      Turn max w (.enqueueTurn jobId now)
        { w with
          waiting := rest
          enqueuing := some .appending
          tail := w.tail ++ [⟨.enqueue, queuedInput request.scope jobId now⟩] }
  | enqueueResume
      {job : WorkspaceJobSnapshot}
      (hjob : w.enqueuing = some (.appended job)) :
      Turn max w .enqueueResume (queueAndSchedule max { w with enqueuing := none } job)
  | retry
      {jobId newJobId idempotencyKey now : String} {job : WorkspaceJobSnapshot}
      (hjob : w.journal.getJob jobId = some job)
      (hfresh : Fresh w newJobId) :
      Turn max w (.retryCall jobId newJobId idempotencyKey now)
        (w.issue .retry (retriedInput job newJobId idempotencyKey now))
  | retryResume
      {job : WorkspaceJobSnapshot}
      (hjob : job ∈ w.retried) :
      Turn max w (.retryResume job.jobId) (queueAndSchedule max
          { w with
            retried := w.retried.filter (fun other => other.jobId ≠ job.jobId) }
          job)
  | cancelNothing
      {jobId now : String}
      (hnothing : ∀ job, w.journal.getJob jobId = some job → job.state.isTerminal = true ∨
          job.state ≠ .queued ∧ w.activeBySource.get? job.sourceId = none) :
      Turn max w (.cancel jobId now) w
  | cancelQueued
      {jobId now : String} {job : WorkspaceJobSnapshot}
      (hjob : w.journal.getJob jobId = some job)
      (hstate : job.state = .queued) :
      Turn max w (.cancel jobId now) ((w.dropPending job.sourceId jobId).issue .cancel
          (queuedCancelledInput job now))
  | cancelActive
      {jobId now : String} {job : WorkspaceJobSnapshot} {l : Loop}
      (hjob : w.journal.getJob jobId = some job)
      (hterminal : job.state.isTerminal = false)
      (hstate : job.state ≠ .queued)
      (hl : w.activeBySource.get? job.sourceId = some l) :
      Turn max w (.cancel jobId now)
        { w with aborted := w.aborted ++ [(l.controller, jobId)] }
  | reportNothing
      {jobId now : String} {update : WorkspaceJobRuntimeUpdate} :
      Turn max w (.report jobId update now) w
  | report
      {jobId now : String} {update : WorkspaceJobRuntimeUpdate}
      {current : WorkspaceJobSnapshot}
      (hcurrent : w.journal.getJob jobId = some current)
      (hterminal : current.state.isTerminal = false)
      (hhanded : jobId ∈ w.handed.map Prod.fst) :
      Turn max w (.report jobId update now) (w.issue .report (reportInput current update now))
  | loopLeave
      {source now : String} {l : Loop}
      (hl : w.activeBySource.get? source = some l)
      (hpc : l.pc = .checking)
      (hjobs : ∀ jobId rest, w.jobsOf source l = jobId :: rest → w.journal.getJob jobId = none) :
      Turn max w (.loopCheck source now) (leaveLoop max w source)
  | loopQueued
      {source now jobId : String} {rest : List String} {l : Loop}
      {current : WorkspaceJobSnapshot}
      (hl : w.activeBySource.get? source = some l)
      (hpc : l.pc = .checking)
      (hjobs : w.jobsOf source l = jobId :: rest)
      (hcurrent : w.journal.getJob jobId = some current)
      (hstate : current.state = .queued) :
      Turn max w (.loopCheck source now) ((w.putLoop source { l with pc := .starting jobId }).issue
          (.start source) (runningInput current now))
  | loopSkip
      {source now jobId : String} {rest : List String} {l : Loop}
      {current : WorkspaceJobSnapshot}
      (hl : w.activeBySource.get? source = some l)
      (hpc : l.pc = .checking)
      (hjobs : w.jobsOf source l = jobId :: rest)
      (hcurrent : w.journal.getJob jobId = some current)
      (hstate : current.state ≠ .queued) :
      Turn max w (.loopCheck source now) (w.putLoop source { l with pc := .settled jobId })
  | loopStart
      {source jobId : String} {l : Loop}
      (hl : w.activeBySource.get? source = some l)
      (hpc : l.pc = .started jobId) :
      Turn max w (.loopStart source)
        { w.putLoop source { l with pc := .executing jobId } with
          handed := w.handed ++ [(jobId, l.controller)]
          history := w.history ++ [.start jobId] }
  | executorKeeps
      {a : Action} {source jobId : String} {l : Loop}
      (ha : a.endsExecution source)
      (hl : w.activeBySource.get? source = some l)
      (hpc : l.pc = .executing jobId) :
      Turn max w a (w.putLoop source { l with pc := .settled jobId })
  | executorEnds
      {a : Action} {source jobId : String} {caught : Bool} {l : Loop}
      {latest : WorkspaceJobSnapshot} {input : SnapshotInput}
      (ha : a.endsExecution source)
      (hl : w.activeBySource.get? source = some l)
      (hpc : l.pc = .executing jobId)
      (hlatest : w.journal.getJob jobId = some latest)
      (hinput : Settles latest input) :
      Turn max w a ((w.putLoop source { l with pc := .settling jobId caught }).issue
          (.settle source) input)
  | loopShift
      {source jobId : String} {l : Loop}
      (hl : w.activeBySource.get? source = some l)
      (hpc : l.pc = .settled jobId) :
      Turn max w (.loopShift source) (shiftJobs w source l)
  | commit
      {eventId : String} {a : Append} {rest : List Append}
      {snapshot : WorkspaceJobSnapshot} {journal : Journal}
      (htail : w.tail = a :: rest)
      (happend :
        w.journal.appendSnapshotSerial a.input eventId = .ok (snapshot, journal)) :
      Turn max w (.commit eventId) ((w.written rest snapshot journal).notify a.owner snapshot)
  | failsAlone
      {message now : String} {a : Append} {rest : List Append}
      {enqueuing : Option Enqueuing}
      (htail : w.tail = a :: rest)
      (howner : a.owner.source? = none)
      (henqueuing : enqueuing = w.enqueuing ∨ enqueuing = none) :
      Turn max w (.appendFails message now)
        { w with tail := rest, enqueuing := enqueuing }
  | failsLeave
      {message now source : String} {a : Append} {rest : List Append}
      (htail : w.tail = a :: rest)
      (howner : a.owner.source? = some source) :
      Turn max w (.appendFails message now) (leaveLoop max { w with tail := rest } source)
  | failsCaught
      {message now source jobId : String} {a : Append} {rest : List Append}
      {l : Loop} {latest : WorkspaceJobSnapshot} {input : SnapshotInput}
      (htail : w.tail = a :: rest)
      (howner : a.owner = .settle source)
      (hl : w.activeBySource.get? source = some l)
      (hpc : l.pc = .settling jobId false)
      (hlatest : w.journal.getJob jobId = some latest)
      (hinput : Settles latest input) :
      Turn max w (.appendFails message now) (({ w with tail := rest }.putLoop source
          { l with pc := .settling jobId true }).issue (.settle source) input)

/-- **A step is a turn.** -/
theorem turn_of_step {a : Action} (h : step max w a = some t) : Turn max w a t := by
  cases a with
  | enqueueCall request =>
    rw [enqueueCall_cases h]
    exact .call request
  | enqueueTurn =>
    obtain ⟨request, rest, henqueuing, hwaiting, rfl | ⟨hfresh, rfl⟩⟩ := enqueueTurn_cases h
    · exact .refuse hwaiting
    · exact .enqueue henqueuing hwaiting hfresh
  | enqueueResume =>
    obtain ⟨job, hjob, rfl⟩ := enqueueResume_cases h
    exact .enqueueResume hjob
  | retryCall =>
    obtain ⟨job, hjob, hfresh, rfl⟩ := retryCall_cases h
    exact .retry hjob hfresh
  | retryResume =>
    obtain ⟨job, hjob, rfl, rfl⟩ := retryResume_cases h
    exact .retryResume hjob
  | cancel =>
    obtain ⟨rfl, hnothing⟩ | ⟨job, hjob, ⟨hstate, rfl⟩ |
      ⟨hterminal, hstate, l, hl, rfl⟩⟩ := cancel_cases h
    · exact .cancelNothing hnothing
    · exact .cancelQueued hjob hstate
    · exact .cancelActive hjob hterminal hstate hl
  | report =>
    obtain rfl | ⟨current, hcurrent, hterminal, hhanded, rfl⟩ := report_cases h
    · exact .reportNothing
    · exact .report hcurrent hterminal hhanded
  | loopCheck =>
    obtain ⟨l, hl, hpc, ⟨rfl, hjobs⟩ | ⟨jobId, rest, current, hjobs, hcurrent,
      ⟨hstate, rfl⟩ | ⟨hstate, rfl⟩⟩⟩ := loopCheck_cases h
    · exact .loopLeave hl hpc hjobs
    · exact .loopQueued hl hpc hjobs hcurrent hstate
    · exact .loopSkip hl hpc hjobs hcurrent hstate
  | loopStart =>
    obtain ⟨l, jobId, hl, hpc, rfl⟩ := loopStart_cases h
    exact .loopStart hl hpc
  | executorReturns =>
    obtain ⟨l, jobId, latest, hl, hpc, hlatest, rfl | rfl⟩ := executorReturns_cases h
    · exact .executorKeeps rfl hl hpc
    · exact .executorEnds rfl hl hpc hlatest (settles_resultInput ..)
  | executorThrows =>
    obtain ⟨l, jobId, hl, hpc, hcatch⟩ := executorThrows_cases h
    obtain ⟨latest, aborted, hlatest, rfl⟩ := catchInto_cases hcatch
    exact .executorEnds rfl hl hpc hlatest (settles_caughtInput ..)
  | loopShift =>
    obtain ⟨l, jobId, hl, hpc, rfl⟩ := loopShift_cases h
    exact .loopShift hl hpc
  | commit =>
    obtain ⟨a, rest, snapshot, journal, htail, happend, rfl⟩ := commit_cases h
    exact .commit htail happend
  | appendFails =>
    obtain ⟨a, rest, htail, ⟨howner, rfl | rfl⟩ | ⟨source, hsource, rfl |
      ⟨l, jobId, howner, hl, hpc, hcatch⟩⟩⟩ := appendFails_cases h
    · exact .failsAlone htail howner (Or.inl rfl)
    · exact .failsAlone htail howner (Or.inr rfl)
    · exact .failsLeave htail hsource
    · obtain ⟨latest, aborted, hlatest, rfl⟩ := catchInto_cases hcatch
      exact .failsCaught htail howner hl hpc hlatest (settles_caughtInput ..)

end WorkspaceJobs
end StudioWeb
