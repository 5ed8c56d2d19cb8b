import StudioWeb.RepositoryOperations.LoopProgress

/-!
# An accepted retry runs

A retry is resolved with an operation that it put into the array of its repository, or
found there; one that refreshes the identity of the repository makes an enqueue and is
resolved with what that answers.
-/

namespace StudioWeb
namespace RepositoryOperations

open LabelledRuns ServedQueue List QueueState

variable {max : Nat} {s t u : QueueState}

inductive Resolves (maxConcurrentRepositories : Nat) (s : QueueState) :
    Action → QueueState → String → String → Prop
  | queued (id : String) (operation : StudioOperationSnapshot) (t : QueueState)
      (repositoryId : String)
      (hretry : s.retry maxConcurrentRepositories id = (t, .queued operation))
      (hrepository : requireRepositoryId operation = .ok repositoryId) :
      Resolves maxConcurrentRepositories s (.retry id) t repositoryId id
  | pending (id : String) (operation candidate : StudioOperationSnapshot) (t : QueueState)
      (repositoryId : String)
      (hretry : s.retry maxConcurrentRepositories id = (t, .pending candidate))
      (hoperation : s.journal.getOperation id = some operation)
      (hrepository : requireRepositoryId operation = .ok repositoryId) :
      Resolves maxConcurrentRepositories s (.retry id) t repositoryId id
  /-- The enqueue of a refreshed identity has added an operation. -/
  | refreshed (scope : StudioOperationScope) (operation : StudioOperationSnapshot)
      (t : QueueState) (repositoryId : String)
      (henqueuing : s.enqueuing = some (.appended scope operation))
      (hreturns : s.enqueueReturns maxConcurrentRepositories = some t)
      (hrepository : requireRepositoryId operation = .ok repositoryId) :
      Resolves maxConcurrentRepositories s .enqueueReturns t repositoryId operation.operationId
  /-- It has found one that is there. -/
  | reused (scope : StudioOperationScope) (rest : List StudioOperationScope)
      (operation : StudioOperationSnapshot) (operationId : String) (t : QueueState)
      (repositoryId : String)
      (hline : s.enqueueTail = scope :: rest)
      (hturn : s.enqueueTurn operationId = some t)
      (hfound : s.journal.findExisting scope = .ok (some operation))
      (hrepository : requireRepositoryId operation = .ok repositoryId) :
      Resolves maxConcurrentRepositories s (.enqueueTurn operationId) t repositoryId
        operation.operationId

/-- No loop is past the ownership check of the operation. -/
def QueueState.NotYetStarted (s : QueueState) (repositoryId operationId : String) : Prop :=
  ∀ i l run, s.loops i = some l → l.repositoryId = repositoryId → l.pc.run? = some run →
    run.operation.operationId = operationId → l.pc = .validating run ∨ l.pc = .owning run

/-- The condition of the step that resolves a retry: an operation that is in the array has
not yet started, and one that a refreshed identity finds is in the array. -/
def Answerable (s : QueueState) (repositoryId operationId : String) : Action → Prop
  | .enqueueTurn _ => (∃ o ∈ s.pending repositoryId, o.operationId = operationId) ∧
      s.NotYetStarted repositoryId operationId
  | _ => s.NotYetStarted repositoryId operationId

/-- The ownership of the operation holds when it is checked. -/
def Owned (operationId : String) (s : QueueState) (a : Action) (_ : QueueState) : Prop :=
  ∀ i message l run, a = .disowned i message → s.loops i = some l → l.pc = .owning run →
    run.operation.operationId ≠ operationId

def QueueState.AtRest (s : QueueState) : Prop := ∀ repositoryId, s.pending repositoryId = []

/-- The executor has been called for the operation since. -/
def StartedSince (s t : QueueState) (repositoryId operationId : String) : Prop :=
  ∃ more, t.log repositoryId = s.log repositoryId ++ more ∧ .started operationId ∈ more

section Promise

def QueueState.Promises (s : QueueState) (repositoryId operationId : String) : Prop :=
  ∀ phase, s.PhaseAt repositoryId phase → Promised (s.queueAt repositoryId phase) operationId

variable {r id : String} {a : Action}

theorem mem_queueAt {phase : Phase} :
    id ∈ (s.queueAt r phase).pending ↔ ∃ o ∈ s.pending r, o.operationId = id :=
  mem_map

theorem promises_of_pending (h : QueueInv max s)
    (hpending : ∃ o ∈ s.pending r, o.operationId = id) (hstart : s.NotYetStarted r id) :
    s.Promises r id := by
  intro phase hphase
  refine ⟨mem_queueAt.mpr hpending, ?_⟩
  intro rest hhead
  by_cases hloop : ∃ i l, s.loops i = some l ∧ l.repositoryId = r
  · obtain ⟨i, l, hl, hr⟩ := hloop
    have hpc := hphase.loop i l hl hr
    cases hrun : l.pc.run? with
    | none =>
      left
      change phase = .waiting
      rw [hpc]
      cases hcase : l.pc <;> simp_all [LoopPc.run?, phaseOf]
    | some run =>
      obtain ⟨others, hothers⟩ := h.heads i l run hl hrun
      have hid : run.operation.operationId = id := by
        rw [hr] at hothers
        simp only [queueAt, hothers, map_cons, List.cons.injEq] at hhead
        exact hhead.1
      change phase = .waiting ∨ phase = .running
      rw [hpc]
      rcases hstart i l run hl hr hrun hid with hcase | hcase <;> rw [hcase] <;>
        exact Or.inr rfl
  · left
    exact hphase.idle fun i l hl hr => hloop ⟨i, l, hl, hr⟩

variable {operation : StudioOperationSnapshot}

theorem promises_push {entry : String → Entry String} (h : QueueInv max s)
    (hnew : ∀ c ∈ s.pending r, c.operationId ≠ operation.operationId) :
    (s.push r entry operation).Promises r operation.operationId := by
  intro phase hphase
  have hphase' : s.PhaseAt r phase := phaseAt_of_loops hphase rfl
  have hpending : (s.push r entry operation).pending r = s.pending r ++ [operation] := by
    change (s.setPending r _).pending r = _
    rw [pending_setPending, if_pos rfl]
  refine ⟨mem_queueAt.mpr ⟨operation, by simp [hpending], rfl⟩, ?_⟩
  intro rest hhead
  left
  by_contra hbusy
  -- a queue that is not waiting has a head, which is another operation
  obtain ⟨c, others, hold, _⟩ := (h.served r phase hphase').head hbusy
  simp only [queueAt] at hold hhead
  rw [hpending, map_append, hold, cons_append, List.cons.injEq] at hhead
  obtain ⟨o, ho, hoid⟩ : ∃ o ∈ s.pending r, o.operationId = c := by
    refine mem_map.mp ?_
    rw [hold]
    exact mem_cons_self
  exact hnew o ho (hoid.trans hhead.1)

theorem promises_of_stays (hloops : LoopsOk max s) (h : s.Promises r id)
    (hstays : Stays s t) : t.Promises r id := by
  intro phase hphase
  obtain ⟨phase', hphase'⟩ := exists_phaseAt hloops r
  obtain ⟨hsame, hqueue⟩ := hstays r phase' hphase'
  rw [phaseAt_unique hphase hsame, hqueue]
  exact h phase' hphase'

theorem retry_queued {repositoryId : String} (h : s.retry max id = (t, .queued operation))
    (hrepository : requireRepositoryId operation = .ok repositoryId) :
    t = (s.push repositoryId .requeued operation).scheduleProcessing max ∧
      s.journal.getOperation id = some operation ∧
      ∀ c ∈ s.pending repositoryId, c.operationId ≠ id := by
  unfold retry at h
  split at h
  · cases h
  · next found hfound =>
    split at h
    · cases h
    · split at h
      · cases h
      · split at h
        · cases h
        · cases hfoundRepository : requireRepositoryId found with
          | error =>
            rw [hfoundRepository] at h
            cases h
          | ok =>
            rw [hfoundRepository] at h
            dsimp only at h
            split at h
            · cases h
            · next hnone =>
              rw [queueOperation_of_ok hfoundRepository] at h
              cases h
              rw [hrepository] at hfoundRepository
              cases hfoundRepository
              refine ⟨rfl, hfound, ?_⟩
              intro c hc
              simpa using find?_eq_none.mp hnone c hc

theorem retry_pending {operation candidate : StudioOperationSnapshot} {repositoryId : String}
    (h : s.retry max id = (t, .pending candidate))
    (hoperation : s.journal.getOperation id = some operation)
    (hrepository : requireRepositoryId operation = .ok repositoryId) :
    t = s ∧ ∃ o ∈ s.pending repositoryId, o.operationId = id := by
  unfold retry at h
  rw [hoperation] at h
  dsimp only at h
  split at h
  · cases h
  · split at h
    · cases h
    · split at h
      · cases h
      · rw [hrepository] at h
        dsimp only at h
        split at h
        · next _ hfind =>
          cases h
          exact ⟨rfl, candidate, mem_of_find?_eq_some hfind,
            by simpa using find?_some hfind⟩
        · rw [queueOperation_of_ok hrepository] at h
          cases h

theorem step_of_resolves (h : Resolves max s a t r id) :
    s.step max a = some t := by
  cases h with
  | queued _ _ _ _ hretry =>
    simp only [step, hretry]
  | pending _ _ _ _ _ hretry =>
    simp only [step, hretry]
  | refreshed _ _ _ _ _ hreturns => exact hreturns
  | reused _ _ _ _ _ _ _ hturn => exact hturn

theorem stays_of_reused {scope : StudioOperationScope} {rest : List StudioOperationScope} (hline : s.enqueueTail = scope :: rest)
    (hturn : s.enqueueTurn id = some t)
    (hfound : s.journal.findExisting scope = .ok (some operation)) : Stays s t := by
  have hstays : Stays s s := fun _ _ hphase => ⟨hphase, rfl⟩
  unfold enqueueTurn at hturn
  split at hturn
  · next _ _ _ hline' =>
    rw [hline'] at hline
    cases hline
    simp only [hfound] at hturn
    cases hturn
    exact hstays.of_same rfl rfl rfl
  · cases hturn

/-- **A retry that is resolved is promised**, under its condition. -/
theorem promises_of_resolves (h : QueueInv max s) (hresolves : Resolves max s a t r id)
    (hanswerable : Answerable s r id a) : t.Promises r id := by
  cases hresolves with
  | queued id operation _ _ hretry hrepository =>
    obtain ⟨rfl, hget, hnew⟩ := retry_queued hretry hrepository
    obtain rfl : operation.operationId = id := (s.journal.keyed id operation hget).1
    have hloops : LoopsOk max (s.push r .requeued operation) := h.loops.of_same rfl rfl rfl
    exact promises_of_stays hloops (promises_push h hnew) (stays_scheduleProcessing hloops)
  | pending _ _ _ _ _ hretry hoperation hrepository =>
    obtain ⟨rfl, hpending⟩ := retry_pending hretry hoperation hrepository
    exact promises_of_pending h hpending hanswerable
  | refreshed scope operation _ _ henqueuing hreturns hrepository =>
    have hfree : QueueInv max { s with enqueuing := none } :=
      h.turn (a := .enqueueFails) .enqueueEnds
    have hnew : ∀ c ∈ s.pending r, c.operationId ≠ operation.operationId := by
      intro c hc hid
      obtain ⟨e, he, hoid⟩ := h.known_of_pending hc
      exact h.keys.appended_fresh scope operation henqueuing r e he (hoid.trans hid)
    have hloops : LoopsOk max ({ s with enqueuing := none }.push r .accepted operation) :=
      h.loops.of_same rfl rfl rfl
    have hpush : ({ s with enqueuing := none }.push r .accepted operation).Promises r
        operation.operationId := promises_push hfree hnew
    unfold QueueState.enqueueReturns at hreturns
    rw [henqueuing] at hreturns
    dsimp only at hreturns
    rw [queueOperation_of_ok hrepository] at hreturns
    cases hreturns
    exact promises_of_stays hloops hpush ((stays_scheduleProcessing hloops).of_same rfl rfl rfl)
  | reused _ _ _ _ _ _ hline hturn hfound =>
    exact promises_of_stays h.loops (promises_of_pending h hanswerable.1 hanswerable.2)
      (stays_of_reused hline hturn hfound)

end Promise

section Keeping

variable {r id : String} {a : Action}

theorem loops_scheduleProcessing {j : Nat} {l : RepositoryLoop}
    (hl : (s.scheduleProcessing max).loops j = some l) :
    l.pc = .checking ∨ s.loops j = some l := by
  refine scheduleProcessing_induction
    (motive := fun u => u.loops j = some l → l.pc = .checking ∨ s.loops j = some l) Or.inr ?_ hl
  intro u r hu _ _ hl
  rcases loops_startLoop_cases hl with ⟨_, rfl⟩ | hold
  · exact Or.inl rfl
  · exact hu hold

/-- A loop whose operation is failed without a start was so before, or has just lost the
ownership. -/
theorem disowned_of_failed {j : Nat} {l' : RepositoryLoop}
    (hturn : Turn max s a t) (hl' : t.loops j = some l') (hfailed : phaseOf l'.pc = .failed) :
    (∃ l, s.loops j = some l ∧ l.repositoryId = l'.repositoryId ∧ phaseOf l.pc = .failed) ∨
      ∃ l run, s.loops j = some l ∧ l.repositoryId = l'.repositoryId ∧ l.pc = .owning run ∧
        ((∃ message, a = .disowned j message) ∨
          s.journal.getOperation run.operation.operationId = none) := by
  have hsame : s.loops j = some l' →
      ∃ l, s.loops j = some l ∧ l.repositoryId = l'.repositoryId ∧ phaseOf l.pc = .failed :=
    fun hold => ⟨l', hold, rfl, hfailed⟩
  have hscheduled : ∀ {u : QueueState}, (u.scheduleProcessing max).loops j = some l' →
      u.loops j = some l' := by
    intro u hl
    rcases loops_scheduleProcessing hl with hpc | hold
    · rw [hpc] at hfailed
      cases hfailed
    · exact hold
  -- a loop that goes on to something else has not failed
  have hgoto : ∀ {u : QueueState} {i : Nat} {r : String} {pc : LoopPc},
      phaseOf pc ≠ .failed → (u.goto i r pc).loops j = some l' → u.loops j = some l' := by
    intro u i r pc hpc hl
    rcases loops_goto_cases hl with ⟨_, rfl⟩ | ⟨_, hold⟩
    · exact absurd hfailed hpc
    · exact hold
  cases hturn with
  | same => exact Or.inl (hsame hl')
  | enqueue => exact Or.inl (hsame hl')
  | refused => exact Or.inl (hsame hl')
  | reused => exact Or.inl (hsame hl')
  | holds => exact Or.inl (hsame hl')
  | enqueueEnds => exact Or.inl (hsame hl')
  | enqueueCommits => exact Or.inl (hsame hl')
  | enqueueReturns _ queued repositoryId =>
    have hold : ({ s with enqueuing := none }.push repositoryId .accepted queued).loops j =
        some l' := hscheduled hl'
    exact Or.inl (hsame hold)
  | requeues operation _ repositoryId =>
    have hold : (s.push repositoryId .requeued operation).loops j = some l' := hscheduled hl'
    exact Or.inl (hsame hold)
  | ends =>
    rw [endLoop_eq] at hl'
    exact Or.inl (hsame (loops_leave_cases (hscheduled hl')).2)
  | runs => exact Or.inl (hsame (hgoto Phase.noConfusion hl'))
  | shifts => exact Or.inl (hsame (hgoto Phase.noConfusion hl'))
  | commits _ l _ _ _ _ _ hl hpc =>
    rcases loops_goto_cases hl' with ⟨rfl, rfl⟩ | ⟨_, hold⟩
    · exact Or.inl ⟨l, hl, rfl, (phaseOf_appending hpc).1.symm.trans hfailed⟩
    · exact Or.inl (hsame hold)
  | aborts => exact Or.inl (hsame (hgoto Phase.noConfusion hl'))
  | starts => exact Or.inl (hsame (hgoto Phase.noConfusion hl'))
  | disowns _ l run _ hl hpc hcause =>
    rcases loops_goto_cases hl' with ⟨rfl, rfl⟩ | ⟨_, hold⟩
    · exact Or.inr ⟨l, run, hl, rfl, hpc, hcause⟩
    · exact Or.inl (hsame hold)
  | settles => exact Or.inl (hsame (hgoto Phase.noConfusion hl'))

theorem phase_ne_failed {phase phase' : Phase} {rest : List String}
    (h : QueueInv max s) (hturn : Turn max s a t)
    (howned : Owned id s a t) (hphase : s.PhaseAt r phase) (hphase' : t.PhaseAt r phase')
    (hhead : (s.queueAt r phase).pending = id :: rest) (hrunning : phase = .running) :
    phase' ≠ .failed := by
  intro hfailed
  obtain ⟨j, l', hl', hr'⟩ : ∃ j l', t.loops j = some l' ∧ l'.repositoryId = r := by
    by_contra hnone
    rw [hphase'.idle fun j l' hl' hr' => hnone ⟨j, l', hl', hr'⟩] at hfailed
    cases hfailed
  have hpc' : phaseOf l'.pc = .failed := (hphase'.loop j l' hl' hr').symm.trans hfailed
  rcases disowned_of_failed hturn hl' hpc' with
    ⟨l, hl, hr, hpc⟩ | ⟨l, run, hl, hr, hpc, hcause⟩
  · rw [hphase.loop j l hl (hr.trans hr'), hpc] at hrunning
    cases hrunning
  · have hrun : l.pc.run? = some run := by rw [hpc]; rfl
    obtain ⟨others, hothers⟩ := h.heads j l run hl hrun
    rw [hr.trans hr'] at hothers
    have hid : run.operation.operationId = id := by
      simp only [queueAt, hothers, map_cons, List.cons.injEq] at hhead
      exact hhead.1
    rcases hcause with ⟨message, hmessage⟩ | hnone
    · exact howned j message l run hmessage hl hpc hid
    · obtain ⟨e, he, heid⟩ := h.known_of_run hl hrun
      have hknown := h.keys.known _ e he
      rw [heid] at hknown
      change (s.journal.getOperation run.operation.operationId).isSome = true at hknown
      rw [hnone] at hknown
      cases hknown

theorem log_of_turn (h : QueueInv max s)
    (hturn : Turn max s a t) : ∃ more, t.log r = s.log r ++ more := by
  obtain ⟨phase, hphase⟩ := exists_phaseAt h.loops r
  obtain ⟨phase', _, hqueue⟩ := advances_of_turn h hturn r phase hphase
  rcases hqueue with hstays | hstep
  · exact ⟨[], by rw [append_nil]; exact congrArg Queue.log hstays⟩
  · exact hstep.log

/-- **A turn keeps a promise**, or starts the operation. -/
theorem promises_of_turn (h : QueueInv max s) (hturn : Turn max s a t) (howned : Owned id s a t)
    (hpromises : s.Promises r id) : t.log r = s.log r ++ [.started id] ∨ t.Promises r id := by
  obtain ⟨phase, hphase⟩ := exists_phaseAt h.loops r
  obtain ⟨phase', hphase', hqueue⟩ := advances_of_turn h hturn r phase hphase
  have hunique : ∀ {p}, t.PhaseAt r p → p = phase' := fun hp => phaseAt_unique hp hphase'
  rcases hqueue with hstays | hstep
  · right
    intro p hp
    rw [hunique hp, hstays]
    exact hpromises phase hphase
  · rcases hstep.promised (hpromises phase hphase) fun rest hhead hrunning =>
      phase_ne_failed h hturn howned hphase hphase' hhead hrunning with hstarted | hkept
    · exact Or.inl hstarted
    · right
      intro p hp
      rw [hunique hp]
      exact hkept

theorem log_of_run {rest : List Action} (h : QueueInv max s)
    (hrun : runActions (step max) s rest = some t) :
    ∃ more, t.log r = s.log r ++ more := by
  induction rest generalizing s with
  | nil =>
    rw [runActions_nil, Option.some.injEq] at hrun
    exact ⟨[], by rw [hrun, append_nil]⟩
  | cons _ _ ih =>
    obtain ⟨u, hstep, hrest⟩ := runActions_cons_iff.mp hrun
    have hturn := turn_of_step hstep
    obtain ⟨first, hfirst⟩ := log_of_turn (r := r) h hturn
    obtain ⟨more, hmore⟩ := ih (h.turn hturn) hrest
    exact ⟨first ++ more, by rw [hmore, hfirst, append_assoc]⟩

theorem promises_of_run {rest : List Action} (h : QueueInv max t)
    (hrun : runActions (step max) t rest = some u) (howned : EveryStep (step max) (Owned id) t rest)
    (hpromises : t.Promises r id) :
    (∃ more, u.log r = t.log r ++ more ∧ .started id ∈ more) ∨ u.Promises r id := by
  induction rest generalizing t with
  | nil =>
    rw [runActions_nil, Option.some.injEq] at hrun
    exact Or.inr (hrun ▸ hpromises)
  | cons _ _ ih =>
    obtain ⟨v, hstep, hrest⟩ := runActions_cons_iff.mp hrun
    obtain ⟨hone, hothers⟩ := (everyStep_cons_iff hstep).mp howned
    have hturn := turn_of_step hstep
    have hv := h.turn hturn
    rcases promises_of_turn h hturn hone hpromises with hstarted | hkept
    · left
      obtain ⟨more, hmore⟩ := log_of_run hv hrest
      refine ⟨.started id :: more, ?_, mem_cons_self⟩
      rw [hmore, hstarted, append_assoc]
      rfl
    · obtain ⟨grown, hgrown⟩ := log_of_turn (r := r) h hturn
      rcases ih hv hrest hothers hkept with ⟨more, hmore, hmem⟩ | hu
      · left
        exact ⟨grown ++ more, by rw [hmore, hgrown, append_assoc],
          mem_append_right _ hmem⟩
      · exact Or.inr hu

end Keeping

/-- **An accepted retry runs**: where the operation has not started and its ownership
holds, it has been started since, or it is in the array and a loop is at work. -/
theorem accepted_retry_runs (maxConcurrentRepositories : Nat) (journal : OperationJournal)
    (start s t u : QueueState) (before rest : List Action) (a : Action) (r id : String)
    (hplaces : 0 < maxConcurrentRepositories)
    (hstart : ofReplayed maxConcurrentRepositories journal = .ok start)
    (hbefore : runActions (step maxConcurrentRepositories) start before = some s)
    (hresolves : Resolves maxConcurrentRepositories s a t r id) (hanswerable : Answerable s r id a)
    (howned : EveryStep (step maxConcurrentRepositories) (Owned id) t rest)
    (hrest : runActions (step maxConcurrentRepositories) t rest = some u) :
    StartedSince t u r id ∨
      ((∃ o ∈ u.pending r, o.operationId = id) ∧ ∃ i l, u.loops i = some l) := by
  have hs := queueInv_of_run hstart hbefore
  have hstep := step_of_resolves hresolves
  have ht := hs.turn (turn_of_step hstep)
  rcases promises_of_run ht hrest howned (promises_of_resolves hs hresolves hanswerable) with
    hstarted | hpromises
  · exact Or.inl hstarted
  · right
    have hall : runActions (step maxConcurrentRepositories) start (before ++ a :: rest) = some u :=
      runActions_append_iff.mpr ⟨s, hbefore, runActions_cons_iff.mpr ⟨t, hstep, hrest⟩⟩
    obtain ⟨phase, hphase⟩ := exists_phaseAt (queueInv_of_run hstart hall).loops r
    obtain ⟨o, ho, hid⟩ := mem_queueAt.mp (hpromises phase hphase).1
    exact ⟨⟨o, ho, hid⟩, exists_loop_of_pending hplaces (attended_of_run hstart hall) ho⟩

private def document : StudioOperationScope :=
  ⟨"workspace", "repository", "fingerprint", "revision", "a.md", "a.md", "markdown", "hash",
    "key-1", "savedAt"⟩

/-- An operation fails, and its last append has taken effect. -/
private def failing : List Action :=
  [.enqueue document, .enqueueTurn "op-1", .enqueueCommit "now", .enqueueReturns, .loopTurn 0,
    .loopCommit 0 "now", .owned 0, .executed 0 (.failed "no network"), .loopCommit 0 "now"]

/-- The run of an operation that is retried. -/
private def again : List Action :=
  [.loopTurn 1, .loopCommit 1 "now", .owned 1, .executed 1 .noChanges, .loopCommit 1 "now",
    .loopTurn 1, .loopTurn 1]

private def after (actions : List Action) : QueueState :=
  reached (step 3) (ofJournal .empty) actions

private theorem ofReplayed_empty :
    ofReplayed 3 .empty = .ok (ofJournal .empty) := by
  have hnone : replayed .empty = [] := by
    simp [replayed, OperationJournal.getCurrentOperations, OperationJournal.empty,
      InsertionMap.values, InsertionMap.empty]
  rw [ofReplayed, hnone]
  rfl

private def runOver : List Action :=
  failing ++ [.loopTurn 0, .loopTurn 0]

private theorem after_of_isSome {actions : List Action}
    (h : (runActions (step 3) (ofJournal .empty) actions).isSome = true) :
    runActions (step 3) (ofJournal .empty) actions = some (after actions) :=
  runActions_reached h

private theorem after_append {first rest : List Action}
    (h : (runActions (step 3) (ofJournal .empty)
      (first ++ rest)).isSome = true) :
    runActions (step 3) (after first) rest = some (after (first ++ rest)) :=
  runActions_reached_append h

/-- Retried once its run is over, the operation is started again. -/
theorem accepted_retry_runs_of_over :
    StartedSince (after (runOver ++ [.retry "op-1"])) (after (runOver ++ [.retry "op-1"] ++ again))
      "repository" "op-1" := by
  have hresolves : Resolves 3 (after runOver) (.retry "op-1") (after (runOver ++ [.retry "op-1"]))
      "repository" "op-1" := .queued "op-1" _ _ "repository" rfl rfl
  have hruns := accepted_retry_runs 3 .empty _ _ _ _ runOver again (.retry "op-1") "repository"
    "op-1" (by decide) ofReplayed_empty (after_of_isSome rfl) hresolves ?_ ?_ (after_append rfl)
  · refine hruns.resolve_right ?_
    rintro ⟨⟨o, ho, _⟩, _⟩
    cases ho
  · intro i l run hl
    have hactive := (queueInv_of_run ofReplayed_empty (after_of_isSome rfl)).loops.active i l hl
    cases hactive
  · refine EveryStep.of_mem fun a ha s _ i message l run hdisowned => ?_
    subst hdisowned
    simp [again] at ha

/-- **A late retry is lost**: between the last append of a run and its end it is resolved
with the operation, which then leaves the array. -/
theorem late_retry_is_lost :
    ∃ s t u, runActions (step 3) (ofJournal .empty) failing = some s ∧
      Resolves 3 s (.retry "op-1") t "repository" "op-1" ∧
      runActions (step 3) t [.loopTurn 0, .loopTurn 0] = some u ∧
      ¬ StartedSince t u "repository" "op-1" ∧ u.AtRest := by
  refine ⟨after failing, after failing, after runOver, after_of_isSome rfl,
    .pending "op-1" _ _ _ "repository" rfl rfl rfl, after_append rfl, ?_, ?_⟩
  · rintro ⟨more, hmore, hmem⟩
    have hnil : more = [] := append_right_eq_self.mp hmore.symm
    rw [hnil] at hmem
    cases hmem
  · intro r
    rfl

end RepositoryOperations
end StudioWeb
