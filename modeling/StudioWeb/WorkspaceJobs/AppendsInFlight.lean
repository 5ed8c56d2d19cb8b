import StudioWeb.WorkspaceJobs.QueueFrames

/-!
# The appends that are issued and not yet written

* `Linked`: the code that awaits an append is there.  An append of a loop belongs
  to the job the loop is at, and a loop awaits one append at most.
* `Registered`: a first snapshot is issued once, before the journal knows the job,
  and every other append is about a job the journal knows.
-/

namespace StudioWeb
namespace WorkspaceJobs

open List QueueState

variable {max : Nat} {w t : QueueState}

section Linked

def LoopPc.job? : LoopPc → Option String
  | .checking => none
  | .starting jobId => some jobId
  | .started jobId => some jobId
  | .executing jobId => some jobId
  | .settling jobId _ => some jobId
  | .settled jobId => some jobId

def LoopPc.awaits (source : String) : LoopPc → Option Owner
  | .starting _ => some (.start source)
  | .settling _ _ => some (.settle source)
  | .checking | .started _ | .executing _ | .settled _ => none

/-- The appends of the loops and the loops that await them. -/
structure Linked (w : QueueState) : Prop where
  awaited : ∀ a ∈ w.tail, ∀ source, a.owner.source? = some source →
    ∃ l, w.activeBySource.get? source = some l ∧
      l.pc.awaits source = some a.owner ∧ l.pc.job? = some a.input.jobId
  once : (w.tail.filterMap (fun a => a.owner.source?)).Nodup

theorem Linked.of_kept (h : Linked w) (htail : t.tail.Sublist w.tail)
    (hkept : ∀ a ∈ t.tail, ∀ source, a.owner.source? = some source →
      ∀ l, w.activeBySource.get? source = some l →
        ∃ l', t.activeBySource.get? source = some l' ∧ l'.pc = l.pc) :
    Linked t := by
  constructor
  · intro a ha source hsource
    obtain ⟨l, hl, hawaits, hjob⟩ := h.awaited a (htail.subset ha) source hsource
    obtain ⟨l', hl', hpc⟩ := hkept a ha source hsource l hl
    exact ⟨l', hl', by rw [hpc, hawaits], by rw [hpc, hjob]⟩
  · exact h.once.sublist (htail.filterMap _)

variable {source : String} {l : Loop}

section

variable (h : Linked w)
include h

theorem Linked.unawaited
    (hl : ∀ l, w.activeBySource.get? source = some l → l.pc.awaits source = none) :
    ∀ a ∈ w.tail, a.owner.source? ≠ some source := by
  intro a ha hsource
  obtain ⟨l, hget, hawaits, _⟩ := h.awaited a ha source hsource
  rw [hl l hget] at hawaits
  cases hawaits

theorem Linked.alone {a : Append} {rest : List Append}
    (htail : w.tail = a :: rest) (howner : a.owner.source? = some source) :
    ∀ b ∈ rest, b.owner.source? ≠ some source := by
  have honce := h.once
  rw [htail, filterMap_cons, howner] at honce
  intro b hb hsource
  exact (nodup_cons.mp honce).1 (mem_filterMap.mpr ⟨b, hb, hsource⟩)

theorem Linked.of_tail {a : Append} {rest : List Append}
    (htail : w.tail = a :: rest) : Linked { w with tail := rest } := by
  refine h.of_kept ?_ ?_
  · rw [htail]
    exact sublist_cons_self a rest
  · intro _ _ _ _ l hl
    exact ⟨l, hl, rfl⟩

theorem Linked.issue {owner : Owner} {input : SnapshotInput}
    (howner : owner.source? = none) : Linked (w.issue owner input) := by
  constructor
  · intro a ha source hsource
    rcases mem_append.mp ha with ha | ha
    · exact h.awaited a ha source hsource
    · rw [mem_singleton.mp ha, howner] at hsource
      cases hsource
  · simpa [QueueState.issue, filterMap_append, howner] using h.once

section

variable (hfree : ∀ a ∈ w.tail, a.owner.source? ≠ some source)
include hfree

theorem Linked.putLoop : Linked (w.putLoop source l) := by
  refine h.of_kept (List.Sublist.refl _) ?_
  intro a ha source' hsource' l' hl'
  refine ⟨l', ?_, rfl⟩
  have hne : source' ≠ source := by
    rintro rfl
    exact hfree a ha hsource'
  simpa [QueueState.putLoop, InsertionMap.get?_set, hne] using hl'

/-- A loop issues the append it awaits. -/
theorem Linked.await {owner : Owner} {input : SnapshotInput}
    (howner : owner.source? = some source) (hawaits : l.pc.awaits source = some owner)
    (hjob : l.pc.job? = some input.jobId) : Linked ((w.putLoop source l).issue owner input) := by
  have hput : Linked (w.putLoop source l) := h.putLoop hfree
  constructor
  · intro a ha source' hsource'
    rcases mem_append.mp ha with ha | ha
    · exact hput.awaited a ha source' hsource'
    · rw [mem_singleton.mp ha] at hsource' ⊢
      have heq : source' = source := by
        rw [howner] at hsource'
        exact (Option.some.inj hsource').symm
      subst heq
      exact ⟨l, by simp [QueueState.issue, QueueState.putLoop], hawaits, hjob⟩
  · have happend : ((w.putLoop source l).issue owner input).tail = w.tail ++ [⟨owner, input⟩] := rfl
    rw [happend, filterMap_append, nodup_append]
    refine ⟨h.once, by simp [howner], ?_⟩
    intro s hs s' hs' heq
    obtain ⟨a, ha, hsource⟩ := mem_filterMap.mp hs
    simp only [filterMap_cons, howner, filterMap_nil, mem_singleton] at hs'
    exact hfree a ha (by rw [hsource, heq, hs'])

omit hfree in
theorem Linked.activate
    (hnone : w.activeBySource.get? source = none) : Linked (w.activate source) := by
  have hfree : ∀ a ∈ w.tail, a.owner.source? ≠ some source := by
    refine h.unawaited ?_
    intro l hl
    rw [hnone] at hl
    cases hl
  exact (h.putLoop hfree).of_kept (List.Sublist.refl _) (fun _ _ _ _ l hl => ⟨l, hl, rfl⟩)

omit hfree in
theorem Linked.schedule : Linked (scheduleProcessing max w) :=
  scheduleProcessing_induct Linked (fun _ _ hw hnone => hw.activate hnone) max h

theorem Linked.leaveLoop : Linked (leaveLoop max w source) := by
  refine Linked.schedule (h.of_kept (List.Sublist.refl _) ?_)
  intro a ha source' hsource' l hl
  refine ⟨l, ?_, rfl⟩
  have hne : source' ≠ source := by
    rintro rfl
    exact hfree a ha hsource'
  simpa [InsertionMap.get?_erase, hne] using hl

omit hfree in
theorem Linked.dropPending {source jobId : String} :
    Linked (w.dropPending source jobId) := by
  refine h.of_kept ?_ ?_
  · rw [(onlyLoops_dropPending w source jobId).tail]
  · intro a _ source' _ l hl
    unfold QueueState.dropPending QueueState.detach
    split
    · exact ⟨l, hl, rfl⟩
    · split
      · exact ⟨l, hl, rfl⟩
      · next _ hl' =>
        by_cases heq : source' = source
        · subst heq
          rw [hl'] at hl
          cases hl
          exact ⟨{ l with detached := _ }, InsertionMap.get?_set_self _ _ _, rfl⟩
        · exact ⟨l, by simpa [QueueState.putLoop, InsertionMap.get?_set, heq] using hl, rfl⟩

theorem Linked.shiftJobs : Linked (shiftJobs w source l) := by
  unfold WorkspaceJobs.shiftJobs
  split
  · exact h.putLoop hfree
  · exact (h.putLoop hfree).of_kept (List.Sublist.refl _) (fun _ _ _ _ l hl => ⟨l, hl, rfl⟩)

theorem Linked.loopWritten {pc : LoopPc} : Linked (w.loopWritten source pc) := by
  unfold QueueState.loopWritten
  split
  · exact h
  · exact h.putLoop hfree

end

theorem linked_step {a : Action} (hturn : Turn max w a t) : Linked t := by
  have hkept : ∀ l source, w.activeBySource.get? source = some l →
      ∃ l', w.activeBySource.get? source = some l' ∧ l'.pc = l.pc :=
    fun l _ hl => ⟨l, hl, rfl⟩
  -- a loop whose point awaits nothing
  have hfree : ∀ {source l}, w.activeBySource.get? source = some l →
      l.pc.awaits source = none → ∀ a ∈ w.tail, a.owner.source? ≠ some source := by
    intro source l hl hpc
    refine h.unawaited ?_
    intro l' hl'
    rw [hl] at hl'
    cases hl'
    exact hpc
  cases hturn with
  | call =>
    exact h.of_kept (List.Sublist.refl _) (fun _ _ source _ l => hkept l source)
  | refuse =>
    exact h.of_kept (List.Sublist.refl _) (fun _ _ source _ l => hkept l source)
  | enqueue =>
    exact (h.issue rfl).of_kept (List.Sublist.refl _) (fun _ _ source _ l => hkept l source)
  | enqueueResume =>
    exact Linked.schedule (h.of_kept (List.Sublist.refl _) (fun _ _ source _ l => hkept l source))
  | retry => exact h.issue rfl
  | retryResume =>
    exact Linked.schedule (h.of_kept (List.Sublist.refl _) (fun _ _ source _ l => hkept l source))
  | cancelNothing => exact h
  | cancelQueued => exact h.dropPending.issue rfl
  | cancelActive =>
    exact h.of_kept (List.Sublist.refl _) (fun _ _ source _ l => hkept l source)
  | reportNothing => exact h
  | report => exact h.issue rfl
  | loopLeave hl hpc => exact h.leaveLoop (hfree hl (by rw [hpc]; rfl))
  | loopQueued hl hpc _ hcurrent =>
    refine h.await (hfree hl (by rw [hpc]; rfl)) rfl rfl ?_
    exact congrArg some (Journal.jobId_of_getJob hcurrent).symm
  | loopSkip hl hpc =>
    exact h.putLoop (hfree hl (by rw [hpc]; rfl))
  | loopStart hl hpc =>
    exact (h.putLoop (hfree hl (by rw [hpc]; rfl))).of_kept (List.Sublist.refl _)
      (fun _ _ _ _ l hl => ⟨l, hl, rfl⟩)
  | executorKeeps _ hl hpc => exact h.putLoop (hfree hl (by rw [hpc]; rfl))
  | executorEnds _ hl hpc hlatest hinput =>
    refine h.await (hfree hl (by rw [hpc]; rfl)) rfl rfl ?_
    exact congrArg some (hinput.jobId.trans (Journal.jobId_of_getJob hlatest)).symm
  | loopShift hl hpc => exact h.shiftJobs (hfree hl (by rw [hpc]; rfl))
  | @commit _ a rest snapshot journal htail =>
    have hrest : Linked (w.written rest snapshot journal) :=
      (h.of_tail htail).of_kept (List.Sublist.refl _) (fun _ _ _ _ l hl => ⟨l, hl, rfl⟩)
    cases howner : a.owner with
    | enqueue =>
      exact hrest.of_kept (List.Sublist.refl _) (fun _ _ source _ l => hkept l source)
    | retry =>
      exact hrest.of_kept (List.Sublist.refl _) (fun _ _ source _ l => hkept l source)
    | cancel => exact hrest
    | report => exact hrest
    | start =>
      exact hrest.loopWritten (h.alone htail (by rw [howner]; rfl))
    | settle =>
      exact hrest.loopWritten (h.alone htail (by rw [howner]; rfl))
  | failsAlone htail =>
    exact (h.of_tail htail).of_kept (List.Sublist.refl _) (fun _ _ source _ l => hkept l source)
  | failsLeave htail howner =>
    exact (h.of_tail htail).leaveLoop (h.alone htail howner)
  | failsCaught htail howner _ _ hlatest hinput =>
    refine (h.of_tail htail).await (h.alone htail (by rw [howner]; rfl)) rfl rfl ?_
    exact congrArg some (hinput.jobId.trans (Journal.jobId_of_getJob hlatest)).symm

end

end Linked

section Registered

def appendedJob : Option Enqueuing → List WorkspaceJobSnapshot
  | some (.appended job) => [job]
  | some .appending => []
  | none => []

/-- The jobs whose call goes on after the append of their first snapshot. -/
def QueueState.resumable (w : QueueState) : List WorkspaceJobSnapshot :=
  appendedJob w.enqueuing ++ w.retried

/-- The jobs of this process: those whose call goes on, and those that were put
into an array. -/
def QueueState.called (w : QueueState) : List String :=
  w.resumable.map (fun job => job.jobId) ++ w.issued.map Prod.fst

/-- The states the code that awaits an append may write. -/
def Owner.Writes : Owner → WorkspaceJobState → Prop
  | .enqueue, state => state = .queued
  | .retry, state => state = .queued
  | .cancel, state => state = .cancelled
  | .report, state => state = .running
  | .start _, state => state = .running
  | .settle _, state => state ≠ .queued

/-- The first snapshots of the jobs, and those that follow. -/
structure Registered (w : QueueState) : Prop where
  called_nodup : w.called.Nodup
  called_known : ∀ jobId ∈ w.called, (w.journal.getJob jobId).isSome
  firsts_nodup : ((w.tail.filter (fun a => a.input.state = .queued)).map
    (fun a => a.input.jobId)).Nodup
  first : ∀ a ∈ w.tail, a.input.state = .queued → w.journal.getJob a.input.jobId = none
  later : ∀ a ∈ w.tail, a.input.state ≠ .queued → (w.journal.getJob a.input.jobId).isSome
  writes : ∀ a ∈ w.tail, a.owner.Writes a.input.state

theorem retried_sublist_resumable (w : QueueState) : w.retried.Sublist w.resumable :=
  sublist_append_right _ _

theorem Registered.of_called (h : Registered w) (hjournal : t.journal = w.journal)
    (htail : t.tail.Sublist w.tail) (hnodup : t.called.Nodup)
    (hcalled : ∀ jobId ∈ t.called, jobId ∈ w.called) : Registered t := by
  constructor
  · exact hnodup
  · intro jobId hjobId
    rw [hjournal]
    exact h.called_known jobId (hcalled jobId hjobId)
  · exact h.firsts_nodup.sublist ((htail.filter _).map _)
  · intro a ha
    rw [hjournal]
    exact h.first a (htail.subset ha)
  · intro a ha
    rw [hjournal]
    exact h.later a (htail.subset ha)
  · exact fun a ha => h.writes a (htail.subset ha)

theorem Registered.of_onlyLoops (h : Registered w) (hloops : OnlyLoops w t) : Registered t := by
  have hcalled : t.called = w.called := by
    simp only [called, resumable, hloops.enqueuing,
      hloops.retried, hloops.issued]
  refine h.of_called hloops.journal ?_ ?_ ?_
  · rw [hloops.tail]
  · rw [hcalled]
    exact h.called_nodup
  · rw [hcalled]
    exact fun _ hjobId => hjobId

variable {owner : Owner} {input : SnapshotInput} {a : Append}

theorem Registered.issue_first (h : Registered w)
    (hfresh : Fresh w input.jobId) (hstate : input.state = .queued)
    (hwrites : owner.Writes input.state) : Registered (w.issue owner input) := by
  have hmem : ∀ a ∈ (w.issue owner input).tail, a ∈ w.tail ∨ a = ⟨owner, input⟩ := by
    intro a ha
    simpa [QueueState.issue] using ha
  constructor
  · exact h.called_nodup
  · exact h.called_known
  · have htail : (w.issue owner input).tail = w.tail ++ [⟨owner, input⟩] := rfl
    rw [htail, filter_append, map_append, nodup_append]
    refine ⟨h.firsts_nodup, by simp [hstate], ?_⟩
    intro jobId hjobId jobId' hjobId' heq
    obtain ⟨a, ha, rfl⟩ := mem_map.mp hjobId
    simp only [hstate, filter_cons, decide_true, if_true, filter_nil,
      map_cons, map_nil, mem_singleton] at hjobId'
    exact hfresh.unissued a (mem_filter.mp ha).1 (heq.trans hjobId')
  · intro a ha hqueued
    rcases hmem a ha with ha | rfl
    · exact h.first a ha hqueued
    · exact hfresh.unknown
  · intro a ha hnot
    rcases hmem a ha with ha | rfl
    · exact h.later a ha hnot
    · exact absurd hstate hnot
  · intro a ha
    rcases hmem a ha with ha | rfl
    · exact h.writes a ha
    · exact hwrites

theorem Registered.issue_later (h : Registered w)
    (hknown : (w.journal.getJob input.jobId).isSome) (hstate : input.state ≠ .queued)
    (hwrites : owner.Writes input.state) : Registered (w.issue owner input) := by
  have hmem : ∀ a ∈ (w.issue owner input).tail, a ∈ w.tail ∨ a = ⟨owner, input⟩ := by
    intro a ha
    simpa [QueueState.issue] using ha
  constructor
  · exact h.called_nodup
  · exact h.called_known
  · simpa [QueueState.issue, filter_append, hstate] using h.firsts_nodup
  · intro a ha hqueued
    rcases hmem a ha with ha | rfl
    · exact h.first a ha hqueued
    · exact absurd hqueued hstate
  · intro a ha hnot
    rcases hmem a ha with ha | rfl
    · exact h.later a ha hnot
    · exact hknown
  · intro a ha
    rcases hmem a ha with ha | rfl
    · exact h.writes a ha
    · exact hwrites

theorem Registered.issue_again {jobId : String}
    {job : WorkspaceJobSnapshot} (h : Registered w) (hjob : w.journal.getJob jobId = some job)
    (hinput : input.jobId = job.jobId) (hstate : input.state ≠ .queued)
    (hwrites : owner.Writes input.state) : Registered (w.issue owner input) := by
  refine h.issue_later ?_ hstate hwrites
  rw [hinput, Journal.jobId_of_getJob hjob, hjob]
  rfl

theorem Registered.resume {enqueuing : Option Enqueuing} {retried : List WorkspaceJobSnapshot}
    {job : WorkspaceJobSnapshot} (h : Registered w) (hjob : job ∈ w.resumable)
    (hsub : ({ w with enqueuing := enqueuing, retried := retried } :
      QueueState).resumable.Sublist w.resumable)
    (hgone : job.jobId ∉ ({ w with enqueuing := enqueuing, retried := retried } :
      QueueState).resumable.map (fun job => job.jobId)) :
    Registered (queueAndSchedule max
      { w with enqueuing := enqueuing, retried := retried } job) := by
  have hjobId : job.jobId ∈ w.resumable.map (fun job => job.jobId) := mem_map_of_mem hjob
  have hsubIds := hsub.map (fun job => job.jobId)
  have hold := nodup_append.mp h.called_nodup
  have hqueued : Registered
      { w with
        enqueuing := enqueuing
        retried := retried
        pendingBySource := queueJob w.pendingBySource job
        issued := w.issued ++ [(job.jobId, job.sourceId)] } := by
    refine h.of_called rfl (List.Sublist.refl _) ?_ ?_
    · refine nodup_append.mpr ⟨hold.1.sublist hsubIds, ?_, ?_⟩
      · rw [map_append, nodup_append]
        refine ⟨hold.2.1, by simp, ?_⟩
        intro jobId hissued jobId' hjobId' heq
        rw [map_singleton, mem_singleton] at hjobId'
        exact hold.2.2 job.jobId hjobId jobId hissued (hjobId'.symm.trans heq.symm)
      · intro jobId hresumable jobId' hissued heq
        rw [map_append, mem_append] at hissued
        rcases hissued with hissued | hissued
        · exact hold.2.2 jobId (hsubIds.subset hresumable) jobId' hissued heq
        · rw [map_singleton, mem_singleton] at hissued
          have hjobId' : jobId = job.jobId := heq.trans hissued
          exact hgone (hjobId' ▸ hresumable)
    · intro jobId hcalled
      rcases mem_append.mp hcalled with hresumable | hissued
      · exact mem_append_left _ (hsubIds.subset hresumable)
      · rw [map_append, mem_append] at hissued
        rcases hissued with hissued | hissued
        · exact mem_append_right _ hissued
        · rw [map_singleton, mem_singleton] at hissued
          exact hissued ▸ mem_append_left _ hjobId
  exact hqueued.of_onlyLoops (onlyLoops_schedule max _)

theorem Registered.queued_iff_unknown (h : Registered w) (ha : a ∈ w.tail) :
    a.input.state = .queued ↔ w.journal.getJob a.input.jobId = none := by
  constructor
  · exact h.first a ha
  · intro hnone
    by_contra hstate
    have hsome := h.later a ha hstate
    rw [hnone] at hsome
    cases hsome

theorem Registered.written {rest : List Append} {eventId : String}
    {snapshot : WorkspaceJobSnapshot} {journal : Journal} (h : Registered w)
    (htail : w.tail = a :: rest) (happend :
      w.journal.appendSnapshotSerial a.input eventId = .ok (snapshot, journal)) :
    Registered (w.written rest snapshot journal) := by
  have hsub : rest.Sublist w.tail := by
    rw [htail]
    exact sublist_cons_self a rest
  have hknown : ∀ jobId, (w.journal.getJob jobId).isSome → (journal.getJob jobId).isSome := by
    intro jobId hsome
    rw [getJob_of_append happend]
    split
    · rfl
    · exact hsome
  constructor
  · exact h.called_nodup
  · exact fun jobId hjobId => hknown jobId (h.called_known jobId hjobId)
  · exact h.firsts_nodup.sublist ((hsub.filter _).map _)
  · intro b hb hqueued
    -- the written append was about another job
    have hne : b.input.jobId ≠ a.input.jobId := by
      intro heq
      have hmem : a ∈ w.tail := by
        rw [htail]
        exact mem_cons_self
      have ha := (h.queued_iff_unknown hmem).mpr (heq ▸ h.first b (hsub.subset hb) hqueued)
      have hnodup := h.firsts_nodup
      rw [htail, filter_cons, if_pos (by simpa using ha), map_cons] at hnodup
      refine (nodup_cons.mp hnodup).1 (heq ▸ mem_map_of_mem ?_)
      exact mem_filter.mpr ⟨hb, by simpa using hqueued⟩
    have hunknown : journal.getJob b.input.jobId = none := by
      rw [getJob_of_append happend, if_neg hne]
      exact h.first b (hsub.subset hb) hqueued
    exact hunknown
  · exact fun b hb hnot => hknown _ (h.later b (hsub.subset hb) hnot)
  · exact fun b hb => h.writes b (hsub.subset hb)

theorem Registered.callWritten (enqueuing : Option Enqueuing) (retried : List WorkspaceJobSnapshot)
    {snapshot : WorkspaceJobSnapshot} (h : Registered w)
    (hknown : (w.journal.getJob snapshot.jobId).isSome) (hnew : snapshot.jobId ∉ w.called)
    (hsub : ∃ resumed, resumed.Sublist w.resumable ∧
      ({ w with enqueuing := enqueuing, retried := retried } :
        QueueState).resumable.Perm (snapshot :: resumed)) :
    Registered { w with enqueuing := enqueuing, retried := retried } := by
  obtain ⟨resumed, hsublist, hperm⟩ := hsub
  have hcalled : ({ w with enqueuing := enqueuing, retried := retried } :
      QueueState).called.Perm (snapshot.jobId ::
        (resumed.map (fun job => job.jobId) ++ w.issued.map Prod.fst)) :=
    (hperm.map _).append_right _
  have hsubCalled : (resumed.map (fun job => job.jobId) ++
      w.issued.map Prod.fst).Sublist w.called :=
    (hsublist.map _).append (List.Sublist.refl _)
  constructor
  · refine hcalled.nodup_iff.mpr (nodup_cons.mpr ⟨?_, ?_⟩)
    · exact fun hmem => hnew (hsubCalled.subset hmem)
    · exact h.called_nodup.sublist hsubCalled
  · intro jobId hjobId
    rcases mem_cons.mp (hcalled.subset hjobId) with rfl | hold
    · exact hknown
    · exact h.called_known jobId (hsubCalled.subset hold)
  · exact h.firsts_nodup
  · exact h.first
  · exact h.later
  · exact h.writes

theorem registered_commit {rest : List Append} {eventId : String}
    {snapshot : WorkspaceJobSnapshot} {journal : Journal} (h : Registered w)
    (htail : w.tail = a :: rest) (happend :
      w.journal.appendSnapshotSerial a.input eventId = .ok (snapshot, journal)) :
    Registered ((w.written rest snapshot journal).notify a.owner snapshot) := by
  have hwritten := h.written htail happend
  have hsnapshot := (state_of_append happend).1
  have hmem : a ∈ w.tail := by
    rw [htail]
    exact mem_cons_self
  have hknown : (journal.getJob snapshot.jobId).isSome := by
    rw [getJob_of_append happend, if_pos hsnapshot]
    rfl
  -- the job of a first snapshot is new
  have hnew : a.input.state = .queued → snapshot.jobId ∉ w.called := by
    intro hstate hcalled
    have hsome := h.called_known _ hcalled
    rw [hsnapshot, h.first a hmem hstate] at hsome
    cases hsome
  have hwrites := h.writes a hmem
  cases howner : a.owner with
  | enqueue =>
    rw [howner] at hwrites
    exact hwritten.callWritten _ _ hknown (hnew hwrites)
      ⟨w.retried, retried_sublist_resumable w, List.Perm.refl _⟩
  | retry =>
    rw [howner] at hwrites
    refine hwritten.callWritten w.enqueuing _ hknown (hnew hwrites)
      ⟨w.resumable, List.Sublist.refl _, ?_⟩
    rw [resumable, resumable, ← append_assoc]
    exact perm_append_singleton _ _
  | cancel => exact hwritten
  | report => exact hwritten
  | start => exact hwritten.of_onlyLoops (onlyLoops_loopWritten _ _ _)
  | settle => exact hwritten.of_onlyLoops (onlyLoops_loopWritten _ _ _)

theorem Registered.resumable_nodup (h : Registered w) :
    (w.resumable.map (fun job => job.jobId)).Nodup :=
  (nodup_append.mp h.called_nodup).1

theorem registered_step {a : Action} (h : Registered w) (hturn : Turn max w a t) :
    Registered t := by
  cases hturn with
  | call =>
    exact h.of_called rfl (List.Sublist.refl _) h.called_nodup (fun _ hj => hj)
  | refuse =>
    exact h.of_called rfl (List.Sublist.refl _) h.called_nodup (fun _ hj => hj)
  | @enqueue jobId now request _ henqueuing _ hfresh =>
    have hissue : Registered (w.issue .enqueue (queuedInput request.scope jobId now)) :=
      h.issue_first hfresh rfl rfl
    have hcalled : ({ w with enqueuing := some .appending } : QueueState).called =
        w.called := by
      simp only [called, resumable, henqueuing, appendedJob]
    refine hissue.of_called rfl (List.Sublist.refl _) ?_ ?_
    · have hnodup := h.called_nodup
      rw [← hcalled] at hnodup
      exact hnodup
    · intro jobId hjobId
      have hold : jobId ∈ w.called := hcalled ▸ hjobId
      exact hold
  | @enqueueResume job hjob =>
    have hresumable : w.resumable = job :: w.retried := by
      simp [resumable, appendedJob, hjob]
    refine h.resume ?_ ?_ ?_
    · rw [hresumable]
      exact mem_cons_self
    · rw [hresumable]
      exact sublist_cons_self _ _
    · have hnodup := h.resumable_nodup
      rw [hresumable, map_cons] at hnodup
      exact (nodup_cons.mp hnodup).1
  | retry _ hfresh => exact h.issue_first hfresh rfl rfl
  | @retryResume job hjob =>
    have hnodup := h.resumable_nodup
    rw [resumable, map_append, nodup_append] at hnodup
    have hresume := @Registered.resume max w w.enqueuing
      (w.retried.filter (fun other => other.jobId ≠ job.jobId)) job h
    refine hresume ?_ ?_ ?_
    · exact (retried_sublist_resumable w).subset hjob
    · exact (List.Sublist.refl _).append filter_sublist
    · rw [resumable, map_append, mem_append, not_or]
      constructor
      · intro hmem
        exact hnodup.2.2 _ hmem _ (mem_map_of_mem hjob) rfl
      · intro hmem
        obtain ⟨other, hother, heq⟩ := mem_map.mp hmem
        exact of_decide_eq_true (mem_filter.mp hother).2 heq
  | cancelNothing => exact h
  | @cancelQueued jobId _ job hjob =>
    have hloops := onlyLoops_dropPending w job.sourceId jobId
    rw [← hloops.journal] at hjob
    exact (h.of_onlyLoops hloops).issue_again hjob rfl WorkspaceJobState.noConfusion rfl
  | cancelActive =>
    exact h.of_called rfl (List.Sublist.refl _) h.called_nodup (fun _ hj => hj)
  | reportNothing => exact h
  | report hcurrent =>
    exact h.issue_again hcurrent rfl WorkspaceJobState.noConfusion rfl
  | loopLeave => exact h.of_onlyLoops (onlyLoops_leaveLoop _ _ _)
  | loopQueued _ _ _ hcurrent =>
    exact (h.of_onlyLoops (by constructor <;> rfl)).issue_again hcurrent rfl
      WorkspaceJobState.noConfusion rfl
  | loopSkip =>
    exact h.of_onlyLoops (by constructor <;> rfl)
  | loopStart =>
    exact h.of_called rfl (List.Sublist.refl _) h.called_nodup (fun _ hj => hj)
  | executorKeeps => exact h.of_onlyLoops (by constructor <;> rfl)
  | executorEnds _ _ _ hlatest hinput =>
    exact (h.of_onlyLoops (by constructor <;> rfl)).issue_again hlatest hinput.jobId
      hinput.state hinput.state
  | loopShift => exact h.of_onlyLoops (onlyLoops_shiftJobs _ _ _)
  | commit htail happend => exact registered_commit h htail happend
  | @failsAlone _ _ a rest enqueuing htail _ henqueuing =>
    have hsub : rest.Sublist w.tail := by
      rw [htail]
      exact sublist_cons_self a rest
    have hcalled : ({ w with tail := rest, enqueuing := enqueuing } :
        QueueState).called.Sublist w.called := by
      rcases henqueuing with rfl | rfl
      · exact List.Sublist.refl _
      · exact ((retried_sublist_resumable w).map _).append (List.Sublist.refl _)
    exact h.of_called rfl hsub (h.called_nodup.sublist hcalled) (fun _ hj => hcalled.subset hj)
  | @failsLeave _ _ _ a rest htail =>
    have hsub : rest.Sublist w.tail := by
      rw [htail]
      exact sublist_cons_self a rest
    have hrest : Registered { w with tail := rest } :=
      h.of_called rfl hsub h.called_nodup (fun _ hj => hj)
    exact hrest.of_onlyLoops (onlyLoops_leaveLoop _ _ _)
  | @failsCaught message now source jobId a rest l latest input htail howner hl hpc
      hlatest hinput =>
      have hsub : rest.Sublist w.tail := by
        rw [htail]
        exact sublist_cons_self a rest
      have hrest : Registered ({ w with tail := rest }.putLoop source
          { l with pc := .settling jobId true }) :=
        h.of_called rfl hsub h.called_nodup (fun _ hj => hj)
      exact hrest.issue_again hlatest hinput.jobId hinput.state hinput.state

end Registered

end WorkspaceJobs
end StudioWeb
