import StudioWeb.WorkspaceJobs.AppendsInFlight

/-!
# What holds of the queue in every state

* `Begun`: a job whose `running` snapshot is written is not shown as queued.
* `Stored`: an array holds jobs of its own source only, and a loop is at the head
  of its array.
* `Coherent`: these two and the two about the appends in flight.
-/

namespace StudioWeb
namespace WorkspaceJobs

open List QueueState InsertionMap

variable {max : Nat} {w t : QueueState}

section Begun

/-- The job of a loop whose `running` snapshot is written. -/
def LoopPc.begun? : LoopPc → Option String
  | .checking => none
  | .starting _ => none
  | .started jobId => some jobId
  | .executing jobId => some jobId
  | .settling jobId _ => some jobId
  | .settled jobId => some jobId

def Begun (w : QueueState) : Prop :=
  ∀ source l jobId, w.activeBySource.get? source = some l → l.pc.begun? = some jobId →
    ∃ state, w.stateOf jobId = some state ∧ state ≠ .queued

theorem Begun.of_loops (h : Begun w) (hjournal : t.journal = w.journal)
    (hloops : ∀ source l, t.activeBySource.get? source = some l → l.pc.begun? = none ∨
        ∃ l', w.activeBySource.get? source = some l' ∧ l.pc.begun? = l'.pc.begun?) :
    Begun t := by
  intro source l jobId hl hbegun
  have hstate : t.stateOf jobId = w.stateOf jobId := by
    simp only [stateOf, hjournal]
  rw [hstate]
  rcases hloops source l hl with hnone | ⟨l', hl', heq⟩
  · rw [hnone] at hbegun
    cases hbegun
  · exact h source l' jobId hl' (heq ▸ hbegun)

variable {source : String}

section

variable (h : Begun w)
include h

theorem Begun.putLoop {l : Loop} (hl : ∀ jobId, l.pc.begun? = some jobId →
      ∃ state, w.stateOf jobId = some state ∧ state ≠ .queued) :
    Begun (w.putLoop source l) := by
  intro source' l' jobId hl' hbegun
  rw [QueueState.putLoop, get?_set] at hl'
  split_ifs at hl'
  · cases hl'
    exact hl jobId hbegun
  · exact h source' l' jobId hl' hbegun

theorem Begun.schedule : Begun (scheduleProcessing max w) := by
  refine scheduleProcessing_induct Begun ?_ max h
  intro w source hw _
  have hput : Begun (w.putLoop source
      { controller := w.controllers, pc := .checking, detached := none }) := by
    refine hw.putLoop ?_
    intro jobId hbegun
    cases hbegun
  exact hput.of_loops rfl (fun _ l hl => Or.inr ⟨l, hl, rfl⟩)

theorem Begun.leaveLoop : Begun (leaveLoop max w source) := by
  refine Begun.schedule (h.of_loops rfl ?_)
  intro source' l hl
  rw [get?_erase] at hl
  split_ifs at hl
  exact Or.inr ⟨l, hl, rfl⟩

theorem Begun.dropPending {source jobId : String} :
    Begun (w.dropPending source jobId) := by
  refine h.of_loops (onlyLoops_dropPending w source jobId).journal ?_
  intro source' l hl
  rw [get?_dropPending, Option.map_eq_some_iff] at hl
  obtain ⟨l', hl', rfl⟩ := hl
  exact Or.inr ⟨l', hl', by rw [pc_droppedLoop]⟩

theorem Begun.shiftJobs {l : Loop} :
    Begun (shiftJobs w source l) := by
  unfold WorkspaceJobs.shiftJobs
  split
  · exact h.putLoop (fun _ hbegun => by cases hbegun)
  · have hput : Begun (w.putLoop source { l with pc := .checking }) :=
      h.putLoop (fun _ hbegun => by cases hbegun)
    exact hput.of_loops rfl (fun _ l hl => Or.inr ⟨l, hl, rfl⟩)

theorem begun_commit {a : Append} {rest : List Append} {eventId : String}
    {snapshot : WorkspaceJobSnapshot} {journal : Journal} (hregistered : Registered w)
    (htail : w.tail = a :: rest) (happend :
      w.journal.appendSnapshotSerial a.input eventId = .ok (snapshot, journal)) :
    Begun ((w.written rest snapshot journal).notify a.owner snapshot) := by
  have hmem : a ∈ w.tail := by
    rw [htail]
    exact mem_cons_self
  have hwritten : Begun (w.written rest snapshot journal) := by
    intro source l jobId hl hbegun
    obtain ⟨state, hstate, hne⟩ := h source l jobId hl hbegun
    rw [stateOf_written happend]
    split_ifs with hjobId
    · refine ⟨a.input.state, rfl, ?_⟩
      intro hqueued
      have hnone := hregistered.first a hmem hqueued
      rw [stateOf, hjobId, hnone] at hstate
      cases hstate
    · exact ⟨state, hstate, hne⟩
  have hloop : ∀ source pc, pc.begun? = some snapshot.jobId → a.input.state ≠ .queued →
      Begun ((w.written rest snapshot journal).loopWritten source pc) := by
    intro source pc hpc hstate
    unfold QueueState.loopWritten
    split
    · exact hwritten
    · refine hwritten.putLoop ?_
      intro jobId hbegun
      rw [hpc] at hbegun
      cases hbegun
      refine ⟨a.input.state, ?_, hstate⟩
      rw [stateOf_written happend, if_pos (state_of_append happend).1]
  have hwrites := hregistered.writes a hmem
  cases howner : a.owner with
  | enqueue => exact hwritten
  | retry => exact hwritten
  | cancel => exact hwritten
  | report => exact hwritten
  | start source =>
    rw [howner] at hwrites
    refine hloop source _ rfl ?_
    intro hqueued
    rw [hqueued] at hwrites
    cases hwrites
  | settle source =>
    rw [howner] at hwrites
    exact hloop source _ rfl hwrites

theorem begun_step {a : Action} (hregistered : Registered w)
    (hturn : Turn max w a t) : Begun t := by
  have hsame : ∀ {u : QueueState}, u.journal = w.journal →
      u.activeBySource = w.activeBySource → Begun u := by
    intro u hjournal hactive
    refine h.of_loops hjournal ?_
    intro source l hl
    exact Or.inr ⟨l, hactive ▸ hl, rfl⟩
  -- the loop that moves stays with its job
  have hput : ∀ {source jobId l} (pc : LoopPc), w.activeBySource.get? source = some l →
      l.pc.begun? = some jobId → pc.begun? = some jobId →
      Begun (w.putLoop source { l with pc := pc }) := by
    intro source jobId l pc hl hold hnew
    refine h.putLoop ?_
    intro jobId' hbegun
    exact h source l jobId' hl (hold.trans (hnew.symm.trans hbegun))
  cases hturn with
  | call => exact hsame rfl rfl
  | refuse => exact hsame rfl rfl
  | enqueue => exact hsame rfl rfl
  | enqueueResume => exact Begun.schedule (hsame rfl rfl)
  | retry => exact hsame rfl rfl
  | retryResume => exact Begun.schedule (hsame rfl rfl)
  | cancelNothing => exact h
  | cancelQueued => exact h.dropPending
  | cancelActive => exact hsame rfl rfl
  | reportNothing => exact h
  | report => exact hsame rfl rfl
  | loopLeave => exact h.leaveLoop
  | loopQueued =>
    exact h.putLoop (fun _ hbegun => by cases hbegun)
  | @loopSkip _ _ _ _ _ current _ _ _ hcurrent hstate =>
    refine h.putLoop ?_
    intro jobId' hbegun
    cases hbegun
    exact ⟨current.state, by rw [stateOf, hcurrent]; rfl, hstate⟩
  | loopStart hl hpc => exact hput _ hl (by rw [hpc]; rfl) rfl
  | executorKeeps _ hl hpc => exact hput _ hl (by rw [hpc]; rfl) rfl
  | executorEnds _ hl hpc => exact hput _ hl (by rw [hpc]; rfl) rfl
  | loopShift => exact h.shiftJobs
  | commit htail happend => exact begun_commit h hregistered htail happend
  | failsAlone => exact hsame rfl rfl
  | failsLeave => exact Begun.leaveLoop (hsame rfl rfl)
  | failsCaught _ _ hl hpc =>
    exact hput _ hl (by rw [hpc]; rfl) rfl

end

end Begun

section Stored

namespace QueueState

/-- An array of a source holds a job: the one in the map, or the one its loop
works on. -/
def Holds (w : QueueState) (source jobId : String) : Prop :=
  jobId ∈ w.arrayOf source ∨ ∃ l, w.activeBySource.get? source = some l ∧ jobId ∈ w.jobsOf source l

end QueueState

/-- The arrays and their loops. -/
structure Stored (w : QueueState) : Prop where
  home : ∀ source jobId, w.Holds source jobId → (jobId, source) ∈ w.issued
  heads : ∀ source l jobId, w.activeBySource.get? source = some l →
    l.pc.job? = some jobId → ∃ rest, w.jobsOf source l = jobId :: rest

theorem Stored.of_same (h : Stored w) (hpending : t.pendingBySource = w.pendingBySource)
    (hactive : t.activeBySource = w.activeBySource) (hissued : t.issued = w.issued) : Stored t := by
  have hjobs : ∀ source l, t.jobsOf source l = w.jobsOf source l := by
    intro source l
    simp only [jobsOf, hpending]
  constructor
  · intro source jobId hholds
    rw [hissued]
    refine h.home source jobId ?_
    simpa only [QueueState.Holds, arrayOf, hpending, hactive, hjobs] using hholds
  · intro source l jobId hl hjob
    rw [hjobs]
    exact h.heads source l jobId (hactive ▸ hl) hjob

variable {source : String} {l : Loop}

section

variable (h : Stored w)
include h

theorem Stored.putLoop {pc : LoopPc} (hl : w.activeBySource.get? source = some l)
    (hhead : ∀ jobId, pc.job? = some jobId → ∃ rest, w.jobsOf source l = jobId :: rest) :
    Stored (w.putLoop source { l with pc := pc }) := by
  constructor
  · intro source' jobId hholds
    refine h.home source' jobId ?_
    rcases hholds with harray | ⟨l', hl', hjobs⟩
    · exact Or.inl harray
    · rw [QueueState.putLoop, get?_set] at hl'
      split_ifs at hl' with heq
      · cases hl'
        exact Or.inr ⟨l, heq ▸ hl, hjobs⟩
      · exact Or.inr ⟨l', hl', hjobs⟩
  · intro source' l' jobId hl' hjob
    rw [QueueState.putLoop, get?_set] at hl'
    split_ifs at hl' with heq
    · cases hl'
      exact heq ▸ hhead jobId hjob
    · exact h.heads source' l' jobId hl' hjob

theorem Stored.schedule : Stored (scheduleProcessing max w) := by
  refine scheduleProcessing_induct Stored ?_ max h
  intro w source hw _
  constructor
  · intro source' jobId hholds
    refine hw.home source' jobId ?_
    rcases hholds with harray | ⟨l, hl, hjobs⟩
    · exact Or.inl harray
    · rw [QueueState.activate, QueueState.putLoop, get?_set] at hl
      split_ifs at hl
      · cases hl
        exact Or.inl hjobs
      · exact Or.inr ⟨l, hl, hjobs⟩
  · intro source' l jobId hl hjob
    rw [QueueState.activate, QueueState.putLoop, get?_set] at hl
    split_ifs at hl
    · cases hl
      cases hjob
    · exact hw.heads source' l jobId hl hjob

theorem Stored.leaveLoop : Stored (leaveLoop max w source) := by
  have harrays : ∀ source', ((if w.arrayOf source = [] then w.pendingBySource.erase source
        else w.pendingBySource).get? source').getD [] = w.arrayOf source' := by
    intro source'
    split_ifs with hempty
    · rw [get?_erase]
      split_ifs with heq
      · rw [heq, hempty]
        rfl
      · rfl
    · rfl
  refine Stored.schedule ⟨?_, ?_⟩
  · intro source' jobId hholds
    refine h.home source' jobId ?_
    rcases hholds with harray | ⟨l, hl, hjobs⟩
    · exact Or.inl (harrays source' ▸ harray)
    · rw [get?_erase] at hl
      split_ifs at hl
      refine Or.inr ⟨l, hl, ?_⟩
      cases hdetached : l.detached with
      | none =>
        simp only [jobsOf, hdetached] at hjobs ⊢
        have hmem : jobId ∈ w.arrayOf source' := harrays source' ▸ hjobs
        exact hmem
      | some => simpa only [jobsOf, hdetached] using hjobs
  · intro source' l jobId hl hjob
    rw [get?_erase] at hl
    split_ifs at hl
    obtain ⟨rest, hrest⟩ := h.heads source' l jobId hl hjob
    refine ⟨rest, ?_⟩
    cases hdetached : l.detached with
    | none =>
      simp only [jobsOf, hdetached] at hrest ⊢
      exact (harrays source').trans hrest
    | some => simpa only [jobsOf, hdetached] using hrest

theorem Stored.dropPending {source jobId : String} :
    Stored (w.dropPending source jobId) := by
  have hissued := (onlyLoops_dropPending w source jobId).issued
  constructor
  · intro source' jobId' hholds
    rw [hissued]
    refine h.home source' jobId' ?_
    rcases hholds with harray | ⟨l, hl, hjobs⟩
    · rw [arrayOf_dropPending] at harray
      split_ifs at harray with heq
      · exact Or.inl (heq ▸ (mem_filter.mp harray).1)
      · exact Or.inl harray
    · rw [get?_dropPending, Option.map_eq_some_iff] at hl
      obtain ⟨l', hl', rfl⟩ := hl
      rw [jobsOf_dropPending] at hjobs
      exact Or.inr ⟨l', hl', hjobs⟩
  · intro source' l jobId' hl hjob
    rw [get?_dropPending, Option.map_eq_some_iff] at hl
    obtain ⟨l', hl', rfl⟩ := hl
    rw [jobsOf_dropPending]
    rw [pc_droppedLoop] at hjob
    exact h.heads source' l' jobId' hl' hjob

theorem Stored.shiftJobs
    (hl : w.activeBySource.get? source = some l) : Stored (shiftJobs w source l) := by
  constructor
  · intro source' jobId hholds
    rw [(onlyLoops_shiftJobs w source l).issued]
    refine h.home source' jobId ?_
    rcases hholds with harray | ⟨l', hl', hjobs⟩
    · rw [arrayOf_shiftJobs] at harray
      split_ifs at harray with heq
      · exact Or.inl (heq.1 ▸ mem_of_mem_tail harray)
      · exact Or.inl harray
    · rw [get?_shiftJobs] at hl'
      split_ifs at hl' with heq
      · cases hl'
        rw [heq, jobsOf_shifted] at hjobs
        exact Or.inr ⟨l, heq ▸ hl, heq ▸ mem_of_mem_tail hjobs⟩
      · rw [jobsOf_shiftJobs w l l' heq] at hjobs
        exact Or.inr ⟨l', hl', hjobs⟩
  · intro source' l' jobId hl' hjob
    rw [get?_shiftJobs] at hl'
    split_ifs at hl' with heq
    · cases hl'
      cases hjob
    · rw [jobsOf_shiftJobs w l l' heq]
      exact h.heads source' l' jobId hl' hjob

omit h in
theorem arrayOf_queueJob (pending : InsertionMap String (List String)) (job : WorkspaceJobSnapshot)
    (source : String) :
    ((queueJob pending job).get? source).getD [] =
      if source = job.sourceId ∧ job.jobId ∉ (pending.get? source).getD [] then
        (pending.get? source).getD [] ++ [job.jobId]
      else
        (pending.get? source).getD [] := by
  unfold queueJob
  dsimp only
  by_cases hmem : ((pending.get? job.sourceId).getD []).contains job.jobId
  · rw [if_pos hmem]
    rw [contains_iff_mem] at hmem
    rw [if_neg]
    rintro ⟨rfl, hnot⟩
    exact hnot hmem
  · rw [if_neg hmem, get?_set]
    rw [contains_iff_mem] at hmem
    by_cases heq : source = job.sourceId
    · rw [if_pos heq, if_pos ⟨heq, heq ▸ hmem⟩, heq]
      rfl
    · rw [if_neg heq, if_neg (fun h => heq h.1)]

theorem Stored.queueJob {enqueuing : Option Enqueuing} {retried : List WorkspaceJobSnapshot}
    {job : WorkspaceJobSnapshot} :
    Stored (queueAndSchedule max
      { w with enqueuing := enqueuing, retried := retried } job) := by
  refine Stored.schedule ⟨?_, ?_⟩
  · intro source jobId hholds
    have harray : ∀ jobId, jobId ∈
        ((WorkspaceJobs.queueJob w.pendingBySource job).get? source).getD [] →
        (jobId, source) ∈ w.issued ++ [(job.jobId, job.sourceId)] := by
      intro jobId hmem
      rw [arrayOf_queueJob] at hmem
      split_ifs at hmem with heq
      · rcases mem_append.mp hmem with hold | hnew
        · exact mem_append_left _ (h.home source jobId (Or.inl hold))
        · rw [mem_singleton.mp hnew, heq.1]
          exact mem_append_right _ mem_cons_self
      · exact mem_append_left _ (h.home source jobId (Or.inl hmem))
    rcases hholds with hmem | ⟨l, hl, hjobs⟩
    · exact harray jobId hmem
    · cases hdetached : l.detached with
      | none =>
        simp only [jobsOf, hdetached] at hjobs
        exact harray jobId hjobs
      | some =>
        simp only [jobsOf, hdetached] at hjobs
        refine mem_append_left _ (h.home source jobId (Or.inr ⟨l, hl, ?_⟩))
        simpa only [jobsOf, hdetached] using hjobs
  · intro source l jobId hl hjob
    obtain ⟨rest, hrest⟩ := h.heads source l jobId hl hjob
    cases hdetached : l.detached with
    | none =>
      simp only [jobsOf, hdetached] at hrest ⊢
      rw [arrayOf_queueJob, hrest]
      split_ifs
      · exact ⟨rest ++ [job.jobId], rfl⟩
      · exact ⟨rest, rfl⟩
    | some =>
      simp only [jobsOf, hdetached] at hrest ⊢
      exact ⟨rest, hrest⟩

theorem Stored.loopWritten {source jobId : String} {pc : LoopPc}
    (hl : w.activeBySource.get? source = some l) (hold : l.pc.job? = some jobId)
    (hnew : pc.job? = some jobId) : Stored (w.loopWritten source pc) := by
  unfold QueueState.loopWritten
  rw [hl]
  refine h.putLoop hl ?_
  intro jobId' hjob
  exact h.heads source l jobId' hl (hold.trans (hnew.symm.trans hjob))

theorem stored_commit {a : Append} {rest : List Append} {eventId : String}
    {snapshot : WorkspaceJobSnapshot} {journal : Journal} (hlinked : Linked w)
    (htail : w.tail = a :: rest) (happend :
      w.journal.appendSnapshotSerial a.input eventId = .ok (snapshot, journal)) :
    Stored ((w.written rest snapshot journal).notify a.owner snapshot) := by
  have hwritten : Stored (w.written rest snapshot journal) := h.of_same rfl rfl rfl
  have hmem : a ∈ w.tail := by
    rw [htail]
    exact mem_cons_self
  have hloop : ∀ source pc, a.owner.source? = some source → pc.job? = some snapshot.jobId →
      Stored ((w.written rest snapshot journal).loopWritten source pc) := by
    intro source pc hsource hpc
    obtain ⟨l, hl, _, hjob⟩ := hlinked.awaited a hmem source hsource
    rw [(state_of_append happend).1] at hpc
    exact hwritten.loopWritten hl hjob hpc
  cases howner : a.owner with
  | enqueue => exact hwritten.of_same rfl rfl rfl
  | retry => exact hwritten.of_same rfl rfl rfl
  | cancel => exact hwritten
  | report => exact hwritten
  | start source => exact hloop source _ (by rw [howner]; rfl) rfl
  | settle source => exact hloop source _ (by rw [howner]; rfl) rfl

theorem stored_step {a : Action} (hlinked : Linked w) (hturn : Turn max w a t) :
    Stored t := by
  have hput : ∀ {source jobId l} (pc : LoopPc), w.activeBySource.get? source = some l →
      l.pc.job? = some jobId → pc.job? = some jobId →
      Stored (w.putLoop source { l with pc := pc }) := by
    intro source jobId l pc hl hold hnew
    refine h.putLoop hl ?_
    intro jobId' hjob
    exact h.heads source l jobId' hl (hold.trans (hnew.symm.trans hjob))
  cases hturn with
  | call => exact h.of_same rfl rfl rfl
  | refuse => exact h.of_same rfl rfl rfl
  | enqueue => exact h.of_same rfl rfl rfl
  | enqueueResume => exact h.queueJob
  | retry => exact h.of_same rfl rfl rfl
  | retryResume => exact h.queueJob
  | cancelNothing => exact h
  | cancelQueued => exact h.dropPending.of_same rfl rfl rfl
  | cancelActive => exact h.of_same rfl rfl rfl
  | reportNothing => exact h
  | report => exact h.of_same rfl rfl rfl
  | loopLeave => exact h.leaveLoop
  | @loopQueued source _ jobId rest l _ hl _ hjobs =>
    have hmove : Stored (w.putLoop source { l with pc := .starting jobId }) :=
      h.putLoop hl (fun _ hjob => by cases hjob; exact ⟨rest, hjobs⟩)
    exact hmove.of_same rfl rfl rfl
  | @loopSkip _ _ _ rest _ _ hl _ hjobs =>
    exact h.putLoop hl (fun _ hjob => by cases hjob; exact ⟨rest, hjobs⟩)
  | loopStart hl hpc => exact (hput _ hl (by rw [hpc]; rfl) rfl).of_same rfl rfl rfl
  | executorKeeps _ hl hpc => exact hput _ hl (by rw [hpc]; rfl) rfl
  | executorEnds _ hl hpc =>
    exact (hput _ hl (by rw [hpc]; rfl) rfl).of_same rfl rfl rfl
  | loopShift hl => exact h.shiftJobs hl
  | commit htail happend => exact stored_commit h hlinked htail happend
  | failsAlone => exact h.of_same rfl rfl rfl
  | failsLeave => exact Stored.leaveLoop (h.of_same rfl rfl rfl)
  | failsCaught _ _ hl hpc =>
    exact (hput _ hl (by rw [hpc]; rfl) rfl).of_same rfl rfl rfl

end

end Stored

/-- The four invariants. -/
structure Coherent (w : QueueState) : Prop where
  linked : Linked w
  registered : Registered w
  begun : Begun w
  stored : Stored w

/-- **Every turn preserves the invariants.** -/
theorem coherent_step {a : Action} (h : Coherent w) (hturn : Turn max w a t) : Coherent t :=
  { linked := linked_step h.linked hturn
    registered := registered_step h.registered hturn
    begun := begun_step h.begun h.registered hturn
    stored := stored_step h.stored h.linked hturn }

theorem Coherent.issued_of_job {source jobId : String} {l : Loop} (h : Coherent w)
    (hl : w.activeBySource.get? source = some l) (hjob : l.pc.job? = some jobId) :
    (jobId, source) ∈ w.issued := by
  obtain ⟨rest, hrest⟩ := h.stored.heads source l jobId hl hjob
  refine h.stored.home source jobId (Or.inr ⟨l, hl, ?_⟩)
  rw [hrest]
  exact mem_cons_self

theorem Coherent.issued_source_eq {source source' jobId : String} (h : Coherent w)
    (hissued : (jobId, source) ∈ w.issued) (hissued' : (jobId, source') ∈ w.issued) :
    source = source' := by
  have hnodup := (nodup_append.mp h.registered.called_nodup).2.1
  have heq := inj_on_of_nodup_map hnodup hissued hissued' rfl
  exact congrArg Prod.snd heq

/-- **Two loops are never at the same job.** -/
theorem Coherent.source_eq {source source' jobId : String} {l l' : Loop} (h : Coherent w)
    (hl : w.activeBySource.get? source = some l) (hl' : w.activeBySource.get? source' = some l')
    (hjob : l.pc.job? = some jobId) (hjob' : l'.pc.job? = some jobId) : source = source' :=
  h.issued_source_eq (h.issued_of_job hl hjob) (h.issued_of_job hl' hjob')

theorem mem_foldl_queueJob {source jobId : String} :
    ∀ (jobs : List WorkspaceJobSnapshot) (pending : InsertionMap String (List String)),
      jobId ∈ ((jobs.foldl queueJob pending).get? source).getD [] →
      jobId ∈ (pending.get? source).getD [] ∨
        (jobId, source) ∈ jobs.map (fun job => (job.jobId, job.sourceId))
  | [], pending, hmem => Or.inl hmem
  | job :: jobs, pending, hmem => by
    rw [foldl_cons] at hmem
    rw [map_cons, mem_cons]
    rcases mem_foldl_queueJob jobs _ hmem with hold | hnew
    · rw [arrayOf_queueJob] at hold
      split_ifs at hold with heq
      · rcases mem_append.mp hold with hold | hnew
        · exact Or.inl hold
        · rw [mem_singleton.mp hnew, heq.1]
          exact Or.inr (Or.inl rfl)
      · exact Or.inl hold
    · exact Or.inr (Or.inr hnew)

/-- **The invariants hold of a queue that was just made.** -/
theorem coherent_initially (max : Nat) (journal : Journal) :
    Coherent <| QueueState.initialize max journal := by
  have hloops : ∀ source l, (empty : InsertionMap String Loop).get? source = some l → False := by
    intro source l hl
    cases hl
  constructor
  · refine Linked.schedule ⟨?_, nodup_nil⟩
    intro a ha
    cases ha
  · refine Registered.of_onlyLoops ?_ (onlyLoops_schedule max _)
    have hcalled : (journal.getCurrentJobs.filter (fun job => job.state = .queued)).map
            (fun job => job.jobId) = ((journal.getCurrentJobs.filter
          (fun job => job.state = .queued)).map
            (fun job => (job.jobId, job.sourceId))).map Prod.fst := by
      rw [map_map]
      rfl
    constructor
    · rw [called, ← hcalled]
      exact journal.getCurrentJobs_nodup.sublist (filter_sublist.map _)
    · intro jobId hjobId
      rw [called, ← hcalled] at hjobId
      obtain ⟨job, hjob, rfl⟩ := mem_map.mp hjobId
      have hget := Journal.mem_getCurrentJobs.mp (mem_filter.mp hjob).1
      rw [hget]
      rfl
    · exact nodup_nil
    · intro a ha
      cases ha
    · intro a ha
      cases ha
    · intro a ha
      cases ha
  · refine Begun.schedule ?_
    intro source l jobId hl
    exact (hloops source l hl).elim
  · refine Stored.schedule ⟨?_, ?_⟩
    · intro source jobId hholds
      rcases hholds with harray | ⟨l, hl, _⟩
      · rcases mem_foldl_queueJob _ _ harray with hnone | hmem
        · cases hnone
        · exact hmem
      · exact (hloops source l hl).elim
    · intro source l jobId hl
      exact (hloops source l hl).elim

end WorkspaceJobs
end StudioWeb
