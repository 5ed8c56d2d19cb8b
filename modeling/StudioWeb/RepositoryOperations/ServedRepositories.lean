import StudioWeb.RepositoryOperations.LoopExclusion

/-!
# The array of a repository is a served queue

What the array of one repository is given, what its loop takes from it and what is told of
both in the history is a `ServedQueue` of operation ids.
-/

namespace StudioWeb
namespace RepositoryOperations

open ServedQueue List QueueState

variable {max : Nat} {s t : QueueState} {a : Action}

section Projection

def phaseOf : LoopPc → Phase
  | .checking => .waiting
  | .validating _ => .running
  | .owning _ => .running
  | .executing _ => .started
  | .settling _ started _ _ => if started then .started else .failed
  | .settled _ started => if started then .started else .failed
  | .failing => .waiting

namespace QueueState

/-- What the history tells of a repository. -/
def log (s : QueueState) (repositoryId : String) : List (Entry String) :=
  (s.history.filter fun e => e.1 = repositoryId).map Prod.snd

def queueAt (s : QueueState) (repositoryId : String) (phase : Phase) : Queue String :=
  ⟨(s.pending repositoryId).map fun o => o.operationId, phase, s.log repositoryId⟩

structure PhaseAt (s : QueueState) (repositoryId : String) (phase : Phase) : Prop where
  loop : ∀ i l, s.loops i = some l → l.repositoryId = repositoryId → phase = phaseOf l.pc
  idle : (∀ i l, s.loops i = some l → l.repositoryId ≠ repositoryId) → phase = .waiting

end QueueState

/-- The queue of every repository takes a step or stays. -/
def Advances (s t : QueueState) : Prop :=
  ∀ r phase, s.PhaseAt r phase → ∃ phase', t.PhaseAt r phase' ∧
    (t.queueAt r phase' = s.queueAt r phase ∨ Step (s.queueAt r phase) (t.queueAt r phase'))

def Stays (s t : QueueState) : Prop :=
  ∀ r phase, s.PhaseAt r phase → t.PhaseAt r phase ∧ t.queueAt r phase = s.queueAt r phase

theorem Stays.advances (h : Stays s t) : Advances s t := by
  intro r phase hphase
  obtain ⟨hphase', hqueue⟩ := h r phase hphase
  exact ⟨phase, hphase', Or.inl hqueue⟩

theorem Advances.stays {u : QueueState} (h : Advances s t) (hstays : Stays t u) : Advances s u := by
  intro r phase hphase
  obtain ⟨phase', hphase', hqueue⟩ := h r phase hphase
  obtain ⟨hphase'', hqueue'⟩ := hstays r phase' hphase'
  rw [← hqueue'] at hqueue
  exact ⟨phase', hphase'', hqueue⟩

theorem log_append (s : QueueState) (repositoryId r : String) (entry : Entry String) :
    (s.note repositoryId entry).log r =
      s.log r ++ if repositoryId = r then [entry] else [] := by
  simp only [QueueState.log, note, filter_append, map_append]
  by_cases hr : repositoryId = r <;> simp [hr]

variable {r : String}

theorem mem_log {e : Entry String} : e ∈ s.log r ↔ (r, e) ∈ s.history := by
  simp only [QueueState.log, mem_map, mem_filter, decide_eq_true_eq]
  constructor
  · rintro ⟨⟨r', e'⟩, ⟨hmem, rfl⟩, rfl⟩
    exact hmem
  · intro hmem
    exact ⟨(r, e), ⟨hmem, rfl⟩, rfl⟩

theorem pending_setPending
    (s : QueueState) (repositoryId r : String) (pending : List StudioOperationSnapshot) :
    (s.setPending repositoryId pending).pending r =
      if r = repositoryId then pending else s.pending r := by
  unfold QueueState.pending setPending
  rw [InsertionMap.get?_set]
  split <;> rfl

theorem exists_phaseAt (h : LoopsOk max s) (r : String) :
    ∃ phase, s.PhaseAt r phase := by
  by_cases hloop : ∃ i l, s.loops i = some l ∧ l.repositoryId = r
  · obtain ⟨i, l, hl, hr⟩ := hloop
    refine ⟨phaseOf l.pc, ?_, ?_⟩
    · intro j l' hl' hr'
      have hij := h.unique i j l l' hl hl' (hr.trans hr'.symm)
      subst hij
      rw [hl] at hl'
      cases hl'
      rfl
    · intro hnone
      exact absurd hr (hnone i l hl)
  · refine ⟨.waiting, ?_, fun _ => rfl⟩
    intro i l hl hr
    exact absurd ⟨i, l, hl, hr⟩ hloop

theorem phaseAt_unique {phase phase' : Phase} (h : s.PhaseAt r phase)
    (h' : s.PhaseAt r phase') : phase = phase' := by
  by_cases hloop : ∃ i l, s.loops i = some l ∧ l.repositoryId = r
  · obtain ⟨i, l, hl, hr⟩ := hloop
    rw [h.loop i l hl hr, h'.loop i l hl hr]
  · have hnone : ∀ i l, s.loops i = some l → l.repositoryId ≠ r :=
      fun i l hl hr => hloop ⟨i, l, hl, hr⟩
    rw [h.idle hnone, h'.idle hnone]

theorem phaseAt_of_loops {phase : Phase} (h : s.PhaseAt r phase)
    (hloops : t.loops = s.loops) : t.PhaseAt r phase := by
  constructor
  · rw [hloops]
    exact h.loop
  · rw [hloops]
    exact h.idle

section Goto

variable {i : Nat} {l : RepositoryLoop} {r : String}

theorem phaseAt_goto_self (h : LoopsOk max s) (hl : s.loops i = some l)
    (pc : LoopPc) : (s.goto i l.repositoryId pc).PhaseAt l.repositoryId (phaseOf pc) := by
  constructor
  · intro j l' hl' hr
    rcases loops_goto_cases hl' with ⟨_, rfl⟩ | ⟨hne, hold⟩
    · rfl
    · exact absurd (h.unique j i l' l hold hl hr) hne
  · intro hnone
    refine absurd rfl (hnone i ⟨l.repositoryId, pc⟩ ?_)
    simp [goto, setLoop]

theorem phaseAt_goto_other {phase : Phase} (h : s.PhaseAt r phase) (hl : s.loops i = some l)
    (hr : r ≠ l.repositoryId) (pc : LoopPc) : (s.goto i l.repositoryId pc).PhaseAt r phase := by
  constructor
  · intro j l' hl' hr'
    rcases loops_goto_cases hl' with ⟨_, rfl⟩ | ⟨_, hold⟩
    · exact absurd hr'.symm hr
    · exact h.loop j l' hold hr'
  · intro hnone
    refine h.idle ?_
    intro j l' hl' hr'
    by_cases hj : j = i
    · subst hj
      rw [hl] at hl'
      cases hl'
      exact hr hr'.symm
    · refine hnone j l' ?_ hr'
      simp [goto, setLoop, hj, hl']

end Goto

theorem stays_startLoop {repositoryId : String} (h : LoopsOk max s)
    (hidle : repositoryId ∉ s.activeRepositories) : Stays s (s.startLoop repositoryId) := by
  intro r phase hphase
  refine ⟨⟨?_, ?_⟩, rfl⟩
  · intro j l hl hr
    rcases loops_startLoop_cases hl with ⟨_, rfl⟩ | hold
    · refine hphase.idle ?_
      intro k l' hl' hr'
      refine hidle ?_
      change repositoryId = r at hr
      have hactive := h.active k l' hl'
      rwa [hr', ← hr] at hactive
    · exact hphase.loop j l hold hr
  · intro hnone
    refine hphase.idle ?_
    intro j l hl
    refine hnone j l ?_
    have hlt := h.lt j l hl
    have hne : j ≠ s.loopCount := by omega
    simp [startLoop, hne, hl]

theorem stays_scheduleProcessing (h : LoopsOk max s) :
    Stays s (s.scheduleProcessing max) := by
  have hboth : LoopsOk max (s.scheduleProcessing max) ∧ Stays s (s.scheduleProcessing max) := by
    refine scheduleProcessing_induction (motive := fun u => LoopsOk max u ∧ Stays s u) ?_ ?_
    · exact ⟨h, fun _ _ hphase => ⟨hphase, rfl⟩⟩
    · rintro u r ⟨hloops, hstays⟩ hlength hidle
      refine ⟨hloops.startLoop hlength hidle, ?_⟩
      intro r' phase hphase
      obtain ⟨hphase', hqueue⟩ := hstays r' phase hphase
      obtain ⟨hphase'', hqueue'⟩ := stays_startLoop hloops hidle r' phase hphase'
      exact ⟨hphase'', hqueue'.trans hqueue⟩
  exact hboth.2

theorem Stays.of_same {u : QueueState} (h : Stays s t) (hloops : u.loops = t.loops)
    (hhistory : u.history = t.history) (hpending : u.pendingByRepository = t.pendingByRepository) :
    Stays s u := by
  intro r phase hphase
  obtain ⟨hphase', hqueue⟩ := h r phase hphase
  refine ⟨phaseAt_of_loops hphase' hloops, ?_⟩
  rw [← hqueue]
  simp only [QueueState.queueAt, QueueState.log, QueueState.pending, hhistory, hpending]

theorem stays_leave {i : Nat} {l : RepositoryLoop} (hl : s.loops i = some l)
    (hpc : phaseOf l.pc = .waiting) : Stays s (s.leave i l.repositoryId) := by
  intro r phase hphase
  refine ⟨⟨?_, ?_⟩, ?_⟩
  · intro j l' hl' hr
    exact hphase.loop j l' (loops_leave_cases hl').2 hr
  · intro hnone
    by_cases hr : l.repositoryId = r
    · rw [hphase.loop i l hl hr, hpc]
    · refine hphase.idle ?_
      intro j l' hl' hr'
      by_cases hj : j = i
      · subst hj
        rw [hl] at hl'
        cases hl'
        exact hr hr'
      · refine hnone j l' ?_ hr'
        rw [leave_loops, Function.update_of_ne hj, hl']
  · simp [QueueState.queueAt, QueueState.log]

theorem phaseOf_appending {pc after : LoopPc} {run : Run} {transition : Transition}
    (h : QueueState.LoopPc.appending? pc = some (run, transition, after)) :
    phaseOf after = phaseOf pc ∧ pc.run? = some run ∧ after.run? = some run := by
  cases pc with
  | validating =>
    cases h
    exact ⟨rfl, rfl, rfl⟩
  | settling _ _ _ rest =>
    cases rest with
    | nil =>
      cases h
      exact ⟨rfl, rfl, rfl⟩
    | cons =>
      cases h
      exact ⟨rfl, rfl, rfl⟩
  | checking => cases h
  | owning => cases h
  | executing => cases h
  | settled => cases h
  | failing => cases h

end Projection

/-- The operation that a loop runs is at the head of the array. -/
def HeadsOk (s : QueueState) : Prop :=
  ∀ i l run, s.loops i = some l → l.pc.run? = some run →
    ∃ rest, s.pending l.repositoryId = run.operation :: rest

/-- What the keys of the journal say of the enqueues, and its operations of the
history. -/
structure KeysOk (s : QueueState) : Prop where
  known : ∀ r e, (r, e) ∈ s.history → (s.journal.operations.get? e.element).isSome = true
  appending : ∀ scope id, s.enqueuing = some (.appending scope id) →
    s.journal.idempotencyIndex.get? scope.idempotencyKey = none
  appended_key : ∀ scope queued, s.enqueuing = some (.appended scope queued) →
    ∃ o, s.journal.idempotencyIndex.get? scope.idempotencyKey = some o ∧
      o.operationId = queued.operationId
  appended_operation : ∀ scope queued, s.enqueuing = some (.appended scope queued) →
    s.journal.getOperation queued.operationId = some queued ∧ queued.state = .queued
  appended_fresh : ∀ scope queued, s.enqueuing = some (.appended scope queued) →
    ∀ r e, (r, e) ∈ s.history → e.element ≠ queued.operationId
  returned : ∀ scope response, (scope, response) ∈ s.returned →
    ∃ o, s.journal.idempotencyIndex.get? scope.idempotencyKey = some o ∧
      o.operationId = response.operation.operationId

def Served (s : QueueState) : Prop :=
  ∀ r phase, s.PhaseAt r phase → ServedQueue.Inv (s.queueAt r phase)

structure QueueInv (max : Nat) (s : QueueState) : Prop where
  loops : LoopsOk max s
  heads : HeadsOk s
  keys : KeysOk s
  served : Served s

theorem QueueInv.known_of_pending (h : QueueInv max s)
    {r : String} {operation : StudioOperationSnapshot} (hpending : operation ∈ s.pending r) :
    ∃ e, (r, e) ∈ s.history ∧ e.element = operation.operationId := by
  obtain ⟨phase, hphase⟩ := exists_phaseAt h.loops r
  obtain ⟨e, he, hid⟩ := (h.served r phase hphase).known operation.operationId
    (mem_map_of_mem hpending)
  exact ⟨e, mem_log.mp he, hid⟩

theorem QueueInv.known_of_run (h : QueueInv max s)
    {i : Nat} {l : RepositoryLoop} {run : Run} (hl : s.loops i = some l)
    (hrun : l.pc.run? = some run) :
    ∃ e, (l.repositoryId, e) ∈ s.history ∧ e.element = run.operation.operationId := by
  obtain ⟨rest, hpending⟩ := h.heads i l run hl hrun
  refine h.known_of_pending ?_
  rw [hpending]
  exact mem_cons_self

theorem advances_goto {i : Nat} {l : RepositoryLoop} {u : QueueState} {pc : LoopPc}
    (h : LoopsOk max s) (hl : s.loops i = some l) (hloops : u.loops = s.loops)
    (hactive : u.activeRepositories = s.activeRepositories) (hcount : u.loopCount = s.loopCount)
    (hother : ∀ r, r ≠ l.repositoryId → ∀ phase, u.queueAt r phase = s.queueAt r phase)
    (hself : u.queueAt l.repositoryId (phaseOf pc) = s.queueAt l.repositoryId (phaseOf l.pc) ∨
      Step (s.queueAt l.repositoryId (phaseOf l.pc)) (u.queueAt l.repositoryId (phaseOf pc))) :
    Advances s (u.goto i l.repositoryId pc) := by
  have hu : LoopsOk max u := h.of_same hactive hloops hcount
  have hul : u.loops i = some l := by rw [hloops, hl]
  intro r phase hphase
  by_cases hr : r = l.repositoryId
  · subst hr
    rw [hphase.loop i l hl rfl]
    exact ⟨phaseOf pc, phaseAt_goto_self hu hul pc, hself⟩
  · refine ⟨phase, phaseAt_goto_other (phaseAt_of_loops hphase hloops) hul hr pc, Or.inl ?_⟩
    exact hother r hr phase

theorem queueAt_note_other {repositoryId r : String} {entry : Entry String} (hr : r ≠ repositoryId)
    (phase : Phase) : (s.note repositoryId entry).queueAt r phase = s.queueAt r phase := by
  have hlog : (s.note repositoryId entry).log r = s.log r := by
    rw [log_append, if_neg fun h => hr h.symm, append_nil]
  simp only [QueueState.queueAt, hlog]
  rfl

theorem queueAt_note_self {repositoryId : String} {entry : Entry String} (phase : Phase) :
    (s.note repositoryId entry).queueAt repositoryId phase =
      { s.queueAt repositoryId phase with log := s.log repositoryId ++ [entry] } := by
  have hlog : (s.note repositoryId entry).log repositoryId = s.log repositoryId ++ [entry] := by
    rw [log_append, if_pos rfl]
  simp only [QueueState.queueAt, hlog]
  rfl

theorem advances_push {repositoryId : String} {entry : String → Entry String}
    {operation : StudioOperationSnapshot} (hstep : ∀ phase, Step (s.queueAt repositoryId phase)
      { s.queueAt repositoryId phase with
        pending := (s.queueAt repositoryId phase).pending ++ [operation.operationId]
        log := s.log repositoryId ++ [entry operation.operationId] }) :
    Advances s (s.push repositoryId entry operation) := by
  intro r phase hphase
  refine ⟨phase, phaseAt_of_loops hphase rfl, ?_⟩
  by_cases hr : r = repositoryId
  · subst hr
    right
    have hqueue : (s.push r entry operation).queueAt r phase =
        { s.queueAt r phase with
          pending := (s.queueAt r phase).pending ++ [operation.operationId]
          log := s.log r ++ [entry operation.operationId] } := by
      rw [push, queueAt_note_self]
      simp only [QueueState.queueAt, pending_setPending, if_true, map_append,
        map_cons, map_nil]
      rfl
    rw [hqueue]
    exact hstep phase
  · left
    rw [push, queueAt_note_other hr]
    simp only [QueueState.queueAt, pending_setPending, if_neg hr]
    rfl

/-- **Every turn is a step of the queue of one repository, or of none.** -/
theorem advances_of_turn (h : QueueInv max s) (hturn : Turn max s a t) : Advances s t := by
  have hstays : Stays s s := fun _ _ hphase => ⟨hphase, rfl⟩
  have hsame : ∀ {u : QueueState}, u.loops = s.loops → u.history = s.history →
      u.pendingByRepository = s.pendingByRepository → Advances s u :=
    fun hloops hhistory hpending => (hstays.of_same hloops hhistory hpending).advances
  cases hturn with
  | same => exact hsame rfl rfl rfl
  | enqueue => exact hsame rfl rfl rfl
  | refused => exact hsame rfl rfl rfl
  | reused => exact hsame rfl rfl rfl
  | holds => exact hsame rfl rfl rfl
  | enqueueEnds => exact hsame rfl rfl rfl
  | enqueueCommits => exact hsame rfl rfl rfl
  | enqueueReturns scope queued repositoryId henqueuing =>
    have hfresh := h.keys.appended_fresh scope queued henqueuing repositoryId
    have hpush : Advances s ({ s with enqueuing := none }.push repositoryId .accepted queued) := by
      have hfree : Advances { s with enqueuing := none }
          ({ s with enqueuing := none }.push repositoryId .accepted queued) := by
        refine advances_push ?_
        intro phase
        refine Step.accept queued.operationId ?_
        exact fun e he => hfresh e (mem_log.mp he)
      exact fun r phase hphase => hfree r phase (phaseAt_of_loops hphase rfl)
    have hloops : LoopsOk max ({ s with enqueuing := none }.push repositoryId .accepted queued) :=
      h.loops.of_same rfl rfl rfl
    exact hpush.stays ((stays_scheduleProcessing hloops).of_same rfl rfl rfl)
  | requeues operation operationId repositoryId hoperation _ _ hnew =>
    have hid : operation.operationId = operationId :=
      (s.journal.keyed operationId operation hoperation).1
    have hpush : Advances s (s.push repositoryId .requeued operation) := by
      refine advances_push ?_
      intro phase
      refine Step.requeue operation.operationId ?_
      intro hmem
      obtain ⟨c, hc, hcid⟩ := mem_map.mp hmem
      exact hnew c hc (hcid.trans hid)
    have hloops : LoopsOk max
        (s.push repositoryId .requeued operation) := h.loops.of_same rfl rfl rfl
    exact hpush.stays (stays_scheduleProcessing hloops)
  | ends i l hl hpc =>
    have hwaiting : phaseOf l.pc = .waiting := by
      rcases hpc with hpc | ⟨hpc, _⟩ <;> rw [hpc] <;> rfl
    have hleave : LoopsOk max (s.leave i l.repositoryId) := loopsOk_leave h.loops hl
    rw [endLoop_eq]
    exact (stays_leave hl hwaiting).advances.stays (stays_scheduleProcessing hleave)
  | runs _ _ next rest _ hl hpc hpending =>
    refine advances_goto h.loops hl rfl rfl rfl ?_ (Or.inr ?_)
    · exact fun r hr phase => queueAt_note_other hr phase
    · rw [queueAt_note_self, hpc]
      refine Step.run next.operationId (rest.map fun o => o.operationId) ?_ rfl
      simp only [QueueState.queueAt, hpending, map_cons]
  | shifts i l run started hl hpc =>
    obtain ⟨rest, hpending⟩ := h.heads i l run hl (by rw [hpc]; rfl)
    refine advances_goto h.loops hl rfl rfl rfl ?_ (Or.inr ?_)
    · intro r hr phase
      simp only [QueueState.queueAt, pending_setPending, if_neg hr]
      rfl
    · have hqueue : (s.setPending l.repositoryId (s.pending l.repositoryId).tail).queueAt
          l.repositoryId (phaseOf .checking) =
          { s.queueAt l.repositoryId (phaseOf l.pc) with
            pending := rest.map fun o => o.operationId, phase := .waiting } := by
        simp only [QueueState.queueAt, pending_setPending, if_true, hpending, tail_cons]
        rfl
      rw [hqueue]
      refine Step.shift run.operation.operationId _ ?_ ?_
      · simp only [QueueState.queueAt, hpending, map_cons]
      · rw [hpc]
        cases started
        · exact Or.inr rfl
        · exact Or.inl rfl
  | commits _ _ _ _ _ _ _ hl hpc =>
    obtain ⟨hphase, _, _⟩ := phaseOf_appending hpc
    refine advances_goto h.loops hl rfl rfl rfl (fun _ _ _ => rfl) (Or.inl ?_)
    rw [hphase]
    rfl
  | aborts _ _ hl =>
    refine advances_goto h.loops hl rfl rfl rfl (fun _ _ _ => rfl) (Or.inr ?_)
    exact Step.abort
  | starts i l run hl hpc =>
    obtain ⟨rest, hpending⟩ := h.heads i l run hl (by rw [hpc]; rfl)
    refine advances_goto h.loops hl rfl rfl rfl ?_ (Or.inr ?_)
    · exact fun r hr phase => queueAt_note_other hr phase
    · rw [queueAt_note_self, hpc]
      refine Step.start run.operation.operationId (rest.map fun o => o.operationId) ?_ rfl
      simp only [QueueState.queueAt, hpending, map_cons]
  | disowns _ _ _ _ hl hpc =>
    refine advances_goto h.loops hl rfl rfl rfl (fun _ _ _ => rfl) (Or.inr ?_)
    rw [hpc]
    exact Step.fail rfl
  | settles _ _ _ _ _ hl hpc =>
    refine advances_goto h.loops hl rfl rfl rfl (fun _ _ _ => rfl) (Or.inl ?_)
    rw [hpc]
    rfl

section Preservation

theorem headsOk_push {repositoryId : String} {entry : String → Entry String}
    {operation : StudioOperationSnapshot} (h : HeadsOk s) :
    HeadsOk (s.push repositoryId entry operation) := by
  intro i l run hl hrun
  obtain ⟨rest, hpending⟩ := h i l run hl hrun
  change ∃ rest, (s.setPending repositoryId _).pending l.repositoryId = _
  rw [pending_setPending]
  split
  · next hr =>
    rw [← hr, hpending]
    exact ⟨rest ++ [operation], rfl⟩
  · exact ⟨rest, hpending⟩

theorem headsOk_scheduleProcessing (h : HeadsOk s) :
    HeadsOk (s.scheduleProcessing max) := by
  refine scheduleProcessing_induction (motive := HeadsOk) h ?_
  intro u r hu _ _ i l run hl hrun
  rcases loops_startLoop_cases hl with ⟨_, rfl⟩ | hold
  · cases hrun
  · exact hu i l run hold hrun

theorem headsOk_goto {i : Nat} {l : RepositoryLoop} {u : QueueState} {pc : LoopPc}
    (hloops : LoopsOk max s) (h : HeadsOk s) (hl : s.loops i = some l)
    (hsame : u.loops = s.loops) (hother : ∀ r, r ≠ l.repositoryId → u.pending r = s.pending r)
    (hself : ∀ run, pc.run? = some run → ∃ rest, u.pending l.repositoryId = run.operation :: rest) :
    HeadsOk (u.goto i l.repositoryId pc) := by
  intro j l' run hl' hrun
  change ∃ rest, u.pending l'.repositoryId = _
  rcases loops_goto_cases hl' with ⟨_, rfl⟩ | ⟨hne, hold⟩
  · exact hself run hrun
  · rw [hsame] at hold
    rw [hother l'.repositoryId fun hr => hne (hloops.unique j i l' l hold hl hr)]
    exact h j l' run hold hrun

theorem HeadsOk.turn (hloops : LoopsOk max s) (h : HeadsOk s)
    (hturn : Turn max s a t) : HeadsOk t := by
  cases hturn with
  | same => exact h
  | enqueue => exact h
  | refused => exact h
  | reused => exact h
  | holds => exact h
  | enqueueEnds => exact h
  | enqueueCommits => exact h
  | enqueueReturns =>
    have hfree : HeadsOk { s with enqueuing := none } := h
    exact headsOk_scheduleProcessing (headsOk_push hfree)
  | requeues =>
    exact headsOk_scheduleProcessing (headsOk_push h)
  | ends =>
    rw [endLoop_eq]
    refine headsOk_scheduleProcessing ?_
    intro j l' run hl' hrun
    rw [leave_pending]
    exact h j l' run (loops_leave_cases hl').2 hrun
  | runs _ _ _ rest _ hl _ hpending =>
    refine headsOk_goto hloops h hl rfl (fun _ _ => rfl) ?_
    intro run hrun
    cases hrun
    exact ⟨rest, hpending⟩
  | shifts _ _ run _ hl =>
    refine headsOk_goto hloops h hl rfl ?_ fun run hrun => by cases hrun
    intro r hr
    rw [pending_setPending, if_neg hr]
  | commits i l run _ _ _ _ hl hpc =>
    obtain ⟨_, hbefore, hafter⟩ := phaseOf_appending hpc
    refine headsOk_goto hloops h hl rfl (fun _ _ => rfl) ?_
    intro run' hrun'
    rw [hafter] at hrun'
    cases hrun'
    exact h i l run hl hbefore
  | aborts _ _ hl =>
    exact headsOk_goto hloops h hl rfl (fun _ _ => rfl) fun run hrun => by cases hrun
  | starts i l run hl hpc =>
    refine headsOk_goto hloops h hl rfl (fun _ _ => rfl) ?_
    intro run' hrun'
    cases hrun'
    exact h i l run hl (by rw [hpc]; rfl)
  | disowns i l run _ hl hpc =>
    refine headsOk_goto hloops h hl rfl (fun _ _ => rfl) ?_
    intro run' hrun'
    cases hrun'
    exact h i l run hl (by rw [hpc]; rfl)
  | settles i l run _ _ hl hpc =>
    refine headsOk_goto hloops h hl rfl (fun _ _ => rfl) ?_
    intro run' hrun'
    cases hrun'
    exact h i l run hl (by rw [hpc]; rfl)

theorem scheduleProcessing_same (max : Nat) (s : QueueState) :
    (s.scheduleProcessing max).journal = s.journal ∧
      (s.scheduleProcessing max).history = s.history ∧
      (s.scheduleProcessing max).enqueuing = s.enqueuing ∧
      (s.scheduleProcessing max).returned = s.returned ∧
      (s.scheduleProcessing max).pendingByRepository =
        s.pendingByRepository :=
  scheduleProcessing_induction (motive := fun u => u.journal = s.journal ∧ u.history = s.history ∧
      u.enqueuing = s.enqueuing ∧ u.returned = s.returned ∧
      u.pendingByRepository = s.pendingByRepository)
    ⟨rfl, rfl, rfl, rfl, rfl⟩ fun _ _ h _ _ => h

theorem KeysOk.of_same (h : KeysOk s) (hjournal : t.journal = s.journal)
    (hhistory : t.history = s.history) (henqueuing : t.enqueuing = s.enqueuing ∨ t.enqueuing = none)
    (hreturned : t.returned = s.returned) : KeysOk t := by
  have hold : ∀ e, t.enqueuing = some e → s.enqueuing = some e := by
    intro e he
    rcases henqueuing with hsame | hnone
    · rw [← hsame, he]
    · rw [hnone] at he
      cases he
  constructor
  · rw [hhistory, hjournal]
    exact h.known
  · rw [hjournal]
    exact fun scope id he => h.appending scope id (hold _ he)
  · rw [hjournal]
    exact fun scope queued he => h.appended_key scope queued (hold _ he)
  · rw [hjournal]
    exact fun scope queued he => h.appended_operation scope queued (hold _ he)
  · rw [hhistory]
    exact fun scope queued he => h.appended_fresh scope queued (hold _ he)
  · rw [hreturned, hjournal]
    exact h.returned

/-- What is noted is of an operation of the journal, and not of the one that is being
enqueued. -/
theorem keysOk_note {repositoryId : String} {entry : Entry String} (h : KeysOk s)
    (hknown : (s.journal.operations.get? entry.element).isSome = true)
    (hfresh : ∀ scope queued, s.enqueuing = some (.appended scope queued) →
      entry.element ≠ queued.operationId) :
    KeysOk (s.note repositoryId entry) := by
  have hcases : ∀ r e, (r, e) ∈ (s.note repositoryId entry).history →
      (r, e) ∈ s.history ∨ e = entry := by
    intro r e hmem
    rcases mem_append.mp hmem with hold | hlast
    · exact Or.inl hold
    · cases mem_singleton.mp hlast
      exact Or.inr rfl
  constructor
  · intro r e hmem
    rcases hcases r e hmem with hold | rfl
    · exact h.known r e hold
    · exact hknown
  · exact h.appending
  · exact h.appended_key
  · exact h.appended_operation
  · intro scope queued he r e hmem
    rcases hcases r e hmem with hold | rfl
    · exact h.appended_fresh scope queued he r e hold
    · exact hfresh scope queued he
  · exact h.returned

theorem keysOk_note_known {repositoryId r : String} {entry e : Entry String} (h : KeysOk s)
    (he : (r, e) ∈ s.history) (hid : e.element = entry.element) :
    KeysOk (s.note repositoryId entry) := by
  refine keysOk_note h ?_ ?_
  · rw [← hid]
    exact h.known r e he
  · intro scope queued hqueued
    rw [← hid]
    exact h.appended_fresh scope queued hqueued r e he

variable {scope : StudioOperationScope}

theorem keysOk_commit {r : String} {e : Entry String} {operationId : String}
    {state : StudioOperationState} {journal : OperationJournal} {snapshot : StudioOperationSnapshot}
    (h : KeysOk s)
    (happended : OperationJournal.Appended s.journal scope operationId state journal snapshot)
    (he : (r, e) ∈ s.history) (hid : e.element = operationId) :
    KeysOk { s with journal := journal } := by
  have hthere : (s.journal.operations.get? operationId).isSome = true := by
    rw [← hid]
    exact h.known r e he
  constructor
  · exact fun r' e' hmem => happended.operations_stable (h.known r' e' hmem)
  · exact fun scope' id henqueuing =>
      happended.index_none hthere (h.appending scope' id henqueuing)
  · intro scope' queued henqueuing
    obtain ⟨o, ho, hoid⟩ := h.appended_key scope' queued henqueuing
    obtain ⟨o', ho', hoid'⟩ := happended.index_stable ho
    exact ⟨o', ho', hoid'.trans hoid⟩
  · intro scope' queued henqueuing
    obtain ⟨hget, hqueued⟩ := h.appended_operation scope' queued henqueuing
    have hne : queued.operationId ≠ operationId := by
      rw [← hid]
      exact fun heq => h.appended_fresh scope' queued henqueuing r e he heq.symm
    refine ⟨?_, hqueued⟩
    exact (happended.operations_other hne).trans hget
  · exact h.appended_fresh
  · intro scope' response hmem
    obtain ⟨o, ho, hoid⟩ := h.returned scope' response hmem
    obtain ⟨o', ho', hoid'⟩ := happended.index_stable ho
    exact ⟨o', ho', hoid'.trans hoid⟩

theorem keysOk_enqueueCommit {operationId : String} {journal : OperationJournal}
    {queued : StudioOperationSnapshot} (h : KeysOk s)
    (henqueuing : s.enqueuing = some (.appending scope operationId))
    (happended : OperationJournal.Appended s.journal scope operationId .queued journal queued) :
    KeysOk { s with journal := journal, enqueuing := some (.appended scope queued) } := by
  have hnew := happended.new_of_free (h.appending scope operationId henqueuing)
  constructor
  · exact fun r e hmem => happended.operations_stable (h.known r e hmem)
  · intro scope' id he
    cases he
  · intro scope' queued' he
    cases he
    exact ⟨queued, happended.index_self, rfl⟩
  · intro scope' queued' he
    cases he
    rw [happended.id]
    exact ⟨happended.operations_self, happended.state⟩
  · intro scope' queued' he r e hmem heq
    cases he
    have hknown := h.known r e hmem
    rw [heq, happended.id, hnew] at hknown
    cases hknown
  · intro scope' response hmem
    obtain ⟨o, ho, hoid⟩ := h.returned scope' response hmem
    obtain ⟨o', ho', hoid'⟩ := happended.index_stable ho
    exact ⟨o', ho', hoid'.trans hoid⟩

theorem keysOk_returned {response : EnqueueStudioOperationResponse} (h : KeysOk s)
    (hkey : ∃ o, s.journal.idempotencyIndex.get? scope.idempotencyKey = some o ∧
      o.operationId = response.operation.operationId) :
    KeysOk { s with returned := s.returned ++ [(scope, response)] } := by
  refine ⟨h.known, h.appending, h.appended_key, h.appended_operation, h.appended_fresh, ?_⟩
  intro scope' response' hmem
  rcases mem_append.mp hmem with hold | hlast
  · exact h.returned scope' response' hold
  · cases mem_singleton.mp hlast
    exact hkey

theorem KeysOk.scheduleProcessing (h : KeysOk s) :
    KeysOk (s.scheduleProcessing max) := by
  obtain ⟨hjournal, hhistory, henqueuing, hreturned, _⟩ := scheduleProcessing_same max s
  exact h.of_same hjournal hhistory (Or.inl henqueuing) hreturned

theorem KeysOk.turn (hinv : QueueInv max s) (hturn : Turn max s a t) : KeysOk t := by
  have h := hinv.keys
  cases hturn with
  | same => exact h
  | enqueue => exact h.of_same rfl rfl (Or.inl rfl) rfl
  | refused => exact h.of_same rfl rfl (Or.inl rfl) rfl
  | reused _ rest existing hfound =>
    have hrest : KeysOk { s with enqueueTail := rest } := h.of_same rfl rfl (Or.inl rfl) rfl
    exact keysOk_returned hrest ⟨existing, hfound, rfl⟩
  | holds _ _ _ hfree =>
    refine ⟨h.known, ?_, ?_, ?_, ?_, h.returned⟩
    · intro scope' id he
      cases he
      exact hfree
    · intro scope' queued he
      cases he
    · intro scope' queued he
      cases he
    · intro scope' queued he
      cases he
  | enqueueEnds => exact h.of_same rfl rfl (Or.inr rfl) rfl
  | enqueueCommits _ _ _ _ henqueuing happended =>
    exact keysOk_enqueueCommit h henqueuing happended
  | enqueueReturns scope queued repositoryId henqueuing =>
    obtain ⟨hget, _⟩ := h.appended_operation scope queued henqueuing
    have hkey : ∃ o, s.journal.idempotencyIndex.get? scope.idempotencyKey = some o ∧
        o.operationId = (⟨queued, false⟩ : EnqueueStudioOperationResponse).operation.operationId :=
      h.appended_key scope queued henqueuing
    have hfree : KeysOk ({ s with enqueuing := none }.setPending repositoryId
        (s.pending repositoryId ++ [queued])) := h.of_same rfl rfl (Or.inr rfl) rfl
    have hpush : KeysOk ({ s with enqueuing := none }.push repositoryId .accepted queued) := by
      refine keysOk_note hfree ?_ fun scope' queued' he => by cases he
      exact Option.isSome_iff_exists.mpr ⟨queued, hget⟩
    obtain ⟨hjournal, _, _, hreturned, _⟩ := scheduleProcessing_same max
      ({ s with enqueuing := none }.push repositoryId .accepted queued)
    have hscheduled : KeysOk
        (({ s with enqueuing := none }.push repositoryId .accepted queued).scheduleProcessing
          max) := hpush.scheduleProcessing
    have hanswer := keysOk_returned hscheduled (hjournal ▸ hkey)
    rw [hreturned] at hanswer
    exact hanswer
  | requeues operation operationId repositoryId hoperation hstate =>
    have hid : operation.operationId = operationId :=
      (s.journal.keyed operationId operation hoperation).1
    have hset : KeysOk (s.setPending repositoryId (s.pending repositoryId ++ [operation])) :=
      h.of_same rfl rfl (Or.inl rfl) rfl
    refine KeysOk.scheduleProcessing (keysOk_note hset ?_ ?_)
    · change (s.journal.operations.get? operation.operationId).isSome = true
      rw [hid]
      exact Option.isSome_iff_exists.mpr ⟨operation, hoperation⟩
    · -- the operation that is being enqueued is in a state of its own
      intro scope queued he heq
      obtain ⟨hget, hqueued⟩ := h.appended_operation scope queued he
      change operation.operationId = queued.operationId at heq
      rw [← heq, hid, hoperation] at hget
      cases hget
      rw [hqueued] at hstate
      simp [StudioOperationState.isRetryable] at hstate
  | ends =>
    rw [endLoop_eq]
    refine KeysOk.scheduleProcessing (h.of_same ?_ ?_ (Or.inl ?_) ?_)
    · exact leave_journal
    · exact leave_history
    · exact leave_enqueuing
    · exact leave_returned
  | runs _ l next _ _ _ _ hpending =>
    have hnext : next ∈ s.pending l.repositoryId := by
      rw [hpending]
      exact mem_cons_self
    obtain ⟨e, he, hid⟩ := hinv.known_of_pending hnext
    have hnote : KeysOk (s.note l.repositoryId (.run next.operationId)) :=
      keysOk_note_known h he hid
    exact hnote.of_same rfl rfl (Or.inl rfl) rfl
  | shifts => exact h.of_same rfl rfl (Or.inl rfl) rfl
  | commits _ _ _ _ _ _ _ hl hpc happended =>
    obtain ⟨_, hrun, _⟩ := phaseOf_appending hpc
    obtain ⟨e, he, hid⟩ := hinv.known_of_run hl hrun
    exact (keysOk_commit h happended he hid).of_same rfl rfl (Or.inl rfl) rfl
  | aborts => exact h.of_same rfl rfl (Or.inl rfl) rfl
  | starts _ l run hl hpc =>
    have hrun : l.pc.run? = some run := by rw [hpc]; rfl
    obtain ⟨e, he, hid⟩ := hinv.known_of_run hl hrun
    have hnote : KeysOk (s.note l.repositoryId (.started run.operation.operationId)) :=
      keysOk_note_known h he hid
    exact hnote.of_same rfl rfl (Or.inl rfl) rfl
  | disowns => exact h.of_same rfl rfl (Or.inl rfl) rfl
  | settles => exact h.of_same rfl rfl (Or.inl rfl) rfl

theorem Served.advances (hloops : LoopsOk max s) (h : Served s)
    (hadvances : Advances s t) : Served t := by
  intro r phase' hphase'
  obtain ⟨phase, hphase⟩ := exists_phaseAt hloops r
  obtain ⟨phase'', hphase'', hqueue⟩ := hadvances r phase hphase
  have hsame : phase' = phase'' := phaseAt_unique hphase' hphase''
  subst hsame
  rcases hqueue with hstays | hstep
  · rw [hstays]
    exact h r phase hphase
  · exact hstep.inv (h r phase hphase)

/-- **Every turn keeps the invariant.** -/
theorem QueueInv.turn (h : QueueInv max s) (hturn : Turn max s a t) : QueueInv max t :=
  ⟨h.loops.turn hturn, h.heads.turn h.loops hturn, KeysOk.turn h hturn,
    h.served.advances h.loops (advances_of_turn h hturn)⟩

end Preservation

end RepositoryOperations
end StudioWeb
