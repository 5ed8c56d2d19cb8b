import StudioWeb.WorkspaceJobs.QueueInvariants

/-!
# How often the executor of a job is started

A job is shown as queued until its `running` snapshot is written, and never
again.  A loop starts what it finds queued, and two loops are never at the same
job, so the executor of a job is started once at most, whatever fails.
-/

namespace StudioWeb
namespace WorkspaceJobs

open List QueueState

variable {max : Nat} {w t : QueueState}

def LoopPc.starts? : LoopPc → Option String
  | .starting jobId => some jobId
  | .started jobId => some jobId
  | .checking | .executing _ | .settling _ _ | .settled _ => none

theorem LoopPc.job?_of_starts? {pc : LoopPc} {jobId : String} (h : pc.starts? = some jobId) :
    pc.job? = some jobId := by
  cases pc <;> first | exact h | cases h

structure StartedOnce (w : QueueState) : Prop where
  once : (w.handed.map Prod.fst).Nodup
  begun : ∀ jobId ∈ w.handed.map Prod.fst, ∃ state, w.stateOf jobId = some state ∧ state ≠ .queued
  unstarted : ∀ source l jobId, w.activeBySource.get? source = some l →
    l.pc.starts? = some jobId → jobId ∉ w.handed.map Prod.fst

theorem StartedOnce.of_loops (h : StartedOnce w) (hjournal : t.journal = w.journal)
    (hhanded : t.handed = w.handed)
    (hloops : ∀ source l jobId, t.activeBySource.get? source = some l → l.pc.starts? = some jobId →
      ∃ l', w.activeBySource.get? source = some l' ∧ l'.pc.starts? = some jobId) :
    StartedOnce t := by
  have hstate : ∀ jobId, t.stateOf jobId = w.stateOf jobId := by
    intro jobId
    simp only [stateOf, hjournal]
  constructor
  · rw [hhanded]
    exact h.once
  · intro jobId hjobId
    rw [hstate]
    exact h.begun jobId (hhanded ▸ hjobId)
  · intro source l jobId hl hstarts
    obtain ⟨l', hl', hstarts'⟩ := hloops source l jobId hl hstarts
    rw [hhanded]
    exact h.unstarted source l' jobId hl' hstarts'

variable {source : String} {l : Loop}

section

variable (h : StartedOnce w)
include h

theorem StartedOnce.putLoop
    (hstarts : ∀ jobId, l.pc.starts? = some jobId → jobId ∉ w.handed.map Prod.fst) :
    StartedOnce (w.putLoop source l) := by
  refine { h with unstarted := ?_ }
  intro source' l' jobId hl' hstarts'
  rw [QueueState.putLoop, InsertionMap.get?_set] at hl'
  split_ifs at hl'
  · cases hl'
    exact hstarts jobId hstarts'
  · exact h.unstarted source' l' jobId hl' hstarts'

theorem StartedOnce.schedule : StartedOnce (scheduleProcessing max w) := by
  refine scheduleProcessing_induct StartedOnce ?_ max h
  intro w source hw _
  have hput : StartedOnce (w.putLoop source
      { controller := w.controllers, pc := .checking, detached := none }) :=
    hw.putLoop (fun _ hstarts => by cases hstarts)
  exact hput.of_loops rfl rfl (fun _ l _ hl hstarts => ⟨l, hl, hstarts⟩)

theorem StartedOnce.leaveLoop :
    StartedOnce (leaveLoop max w source) := by
  refine StartedOnce.schedule (h.of_loops rfl rfl ?_)
  intro source' l jobId hl hstarts
  rw [InsertionMap.get?_erase] at hl
  split_ifs at hl
  exact ⟨l, hl, hstarts⟩

theorem StartedOnce.dropPending {source jobId : String} :
    StartedOnce (w.dropPending source jobId) := by
  have hloops := onlyLoops_dropPending w source jobId
  refine h.of_loops hloops.journal hloops.handed ?_
  intro source' l jobId' hl hstarts
  rw [get?_dropPending, Option.map_eq_some_iff] at hl
  obtain ⟨l', hl', rfl⟩ := hl
  rw [pc_droppedLoop] at hstarts
  exact ⟨l', hl', hstarts⟩

theorem StartedOnce.shiftJobs :
    StartedOnce (shiftJobs w source l) := by
  have hloops := onlyLoops_shiftJobs w source l
  refine h.of_loops hloops.journal hloops.handed ?_
  intro source' l' jobId hl' hstarts
  rw [get?_shiftJobs] at hl'
  split_ifs at hl'
  · cases hl'
    cases hstarts
  · exact ⟨l', hl', hstarts⟩

theorem StartedOnce.written {a : Append} {rest : List Append} {eventId : String}
    {snapshot : WorkspaceJobSnapshot} {journal : Journal}
    (hregistered : Registered w) (ha : a ∈ w.tail) (happend :
      w.journal.appendSnapshotSerial a.input eventId = .ok (snapshot, journal)) :
    StartedOnce (w.written rest snapshot journal) := by
  refine ⟨h.once, ?_, h.unstarted⟩
  intro jobId hjobId
  obtain ⟨state, hstate, hne⟩ := h.begun jobId hjobId
  rw [stateOf_written happend]
  split_ifs with hsame
  · refine ⟨a.input.state, rfl, ?_⟩
    intro hqueued
    have hnone := hregistered.first a ha hqueued
    rw [stateOf, hsame, hnone] at hstate
    cases hstate
  · exact ⟨state, hstate, hne⟩

theorem startedOnce_commit {a : Append} {rest : List Append} {eventId : String}
    {snapshot : WorkspaceJobSnapshot} {journal : Journal}
    (hcoherent : Coherent w) (htail : w.tail = a :: rest) (happend :
      w.journal.appendSnapshotSerial a.input eventId = .ok (snapshot, journal)) :
    StartedOnce ((w.written rest snapshot journal).notify a.owner snapshot) := by
  have ha : a ∈ w.tail := by
    rw [htail]
    exact mem_cons_self
  have hwritten : StartedOnce (w.written rest snapshot journal) :=
    h.written hcoherent.registered ha happend
  cases howner : a.owner with
  | enqueue => exact hwritten.of_loops rfl rfl (fun _ l _ hl hs => ⟨l, hl, hs⟩)
  | retry => exact hwritten.of_loops rfl rfl (fun _ l _ hl hs => ⟨l, hl, hs⟩)
  | cancel => exact hwritten
  | report => exact hwritten
  | start source =>
    obtain ⟨l, hl, hawaits, hjob⟩ := hcoherent.linked.awaited a ha source (by rw [howner]; rfl)
    have hstarts : l.pc.starts? = some a.input.jobId := by
      rw [howner] at hawaits
      cases hpc : l.pc <;> rw [hpc] at hawaits hjob <;>
        first | exact hjob | cases hawaits
    simp only [notify, loopWritten]
    split
    · exact hwritten
    · refine hwritten.putLoop ?_
      intro jobId hstarted
      cases hstarted
      rw [(state_of_append happend).1]
      exact h.unstarted source l _ hl hstarts
  | settle =>
    simp only [notify, loopWritten]
    split
    · exact hwritten
    · exact hwritten.putLoop (fun _ hstarts => by cases hstarts)

theorem StartedOnce.loopStart {source jobId : String}
    (hcoherent : Coherent w) (hl : w.activeBySource.get? source = some l)
    (hpc : l.pc = .started jobId) :
    StartedOnce
      { w.putLoop source { l with pc := .executing jobId } with
        handed := w.handed ++ [(jobId, l.controller)]
        history := w.history ++ [.start jobId] } := by
  have hstarts : l.pc.starts? = some jobId := by
    rw [hpc]
    rfl
  have hnew : jobId ∉ w.handed.map Prod.fst := h.unstarted source l jobId hl hstarts
  constructor
  · rw [map_append, nodup_append]
    refine ⟨h.once, nodup_singleton _, ?_⟩
    intro jobId' hmem other hother heq
    rw [map_singleton, mem_singleton] at hother
    have hsame : jobId' = jobId := heq.trans hother
    exact hnew (hsame ▸ hmem)
  · intro jobId' hmem
    rw [map_append, mem_append] at hmem
    rcases hmem with hmem | hmem
    · exact h.begun jobId' hmem
    · rw [map_singleton, mem_singleton] at hmem
      have hsame : jobId' = jobId := hmem
      rw [hsame]
      exact hcoherent.begun source l jobId hl (by rw [hpc]; rfl)
  · intro source' l' jobId' hl' hstarts' hmem
    rw [QueueState.putLoop, InsertionMap.get?_set] at hl'
    split_ifs at hl' with heq
    · cases hl'
      cases hstarts'
    · rw [map_append, mem_append] at hmem
      rcases hmem with hmem | hmem
      · exact h.unstarted source' l' jobId' hl' hstarts' hmem
      · -- no other loop is at the job
        rw [map_singleton, mem_singleton] at hmem
        have hsame : jobId' = jobId := hmem
        rw [hsame] at hstarts'
        exact heq (hcoherent.source_eq hl' hl (LoopPc.job?_of_starts? hstarts')
          (LoopPc.job?_of_starts? hstarts))

/-- **Every turn keeps the executors started once.** -/
theorem startedOnce_step {a : Action} (hcoherent : Coherent w)
    (hturn : Turn max w a t) : StartedOnce t := by
  have hsame : ∀ {u : QueueState}, u.journal = w.journal → u.handed = w.handed →
      u.activeBySource = w.activeBySource → StartedOnce u := by
    intro u hjournal hhanded hactive
    refine h.of_loops hjournal hhanded ?_
    intro source l jobId hl hstarts
    exact ⟨l, hactive ▸ hl, hstarts⟩
  cases hturn with
  | call => exact hsame rfl rfl rfl
  | refuse => exact hsame rfl rfl rfl
  | enqueue => exact hsame rfl rfl rfl
  | enqueueResume => exact StartedOnce.schedule (hsame rfl rfl rfl)
  | retry => exact hsame rfl rfl rfl
  | retryResume => exact StartedOnce.schedule (hsame rfl rfl rfl)
  | cancelNothing => exact h
  | cancelQueued =>
    exact h.dropPending.of_loops rfl rfl (fun _ l _ hl hs => ⟨l, hl, hs⟩)
  | cancelActive => exact hsame rfl rfl rfl
  | reportNothing => exact h
  | report => exact hsame rfl rfl rfl
  | loopLeave => exact h.leaveLoop
  | @loopQueued source _ jobId _ l _ hl _ _ hcurrent hstate =>
    have hput : StartedOnce (w.putLoop source { l with pc := .starting jobId }) := by
      refine h.putLoop ?_
      intro jobId' hstarts hmem
      cases hstarts
      obtain ⟨state, hstateOf, hne⟩ := h.begun jobId hmem
      rw [stateOf, hcurrent] at hstateOf
      cases hstateOf
      exact hne hstate
    exact hput.of_loops rfl rfl (fun _ l _ hl hs => ⟨l, hl, hs⟩)
  | loopSkip =>
    exact h.putLoop (fun _ hstarts => by cases hstarts)
  | loopStart hl hpc => exact h.loopStart hcoherent hl hpc
  | executorKeeps => exact h.putLoop (fun _ hstarts => by cases hstarts)
  | @executorEnds _ source jobId caught l _ _ _ hl =>
    have hput : StartedOnce (w.putLoop source { l with pc := .settling jobId caught }) :=
      h.putLoop (fun _ hstarts => by cases hstarts)
    exact hput.of_loops rfl rfl (fun _ l _ hl hs => ⟨l, hl, hs⟩)
  | loopShift => exact h.shiftJobs
  | commit htail happend => exact startedOnce_commit h hcoherent htail happend
  | failsAlone => exact hsame rfl rfl rfl
  | failsLeave => exact StartedOnce.leaveLoop (hsame rfl rfl rfl)
  | @failsCaught message now source jobId a rest l latest input htail howner hl hpc
      hlatest hinput =>
      have hput : StartedOnce (w.putLoop source { l with pc := .settling jobId true }) :=
        h.putLoop (fun _ hstarts => by cases hstarts)
      exact hput.of_loops rfl rfl (fun _ l _ hl hs => ⟨l, hl, hs⟩)

end

theorem startedOnce_initially (max : Nat) (journal : Journal) :
    StartedOnce <| QueueState.initialize max journal := by
  refine StartedOnce.schedule ⟨nodup_nil, ?_, ?_⟩
  · intro jobId hmem
    cases hmem
  · intro source l jobId hl
    cases hl

end WorkspaceJobs
end StudioWeb
