import StudioWeb.WorkspaceJobs.QueueInvariants

/-!
# Terminal jobs

A turn that writes a snapshot reads the newest one first and issues an append,
which takes effect later.  `history` has the snapshots in the order in which they
took effect, with the starts of the executor between them.

`TerminalStays` says that nothing follows a terminal snapshot of a job but
snapshots in the same state.
-/

namespace StudioWeb
namespace WorkspaceJobs

open LabelledRuns List QueueState

variable {max : Nat} {w t : QueueState}

/-- After a terminal snapshot of a job: no other state, and no start. -/
def Stays : Entry → Entry → Prop
  | .snapshot jobId state, .snapshot jobId' state' =>
    state.isTerminal = true → jobId' = jobId → state' = state
  | .snapshot jobId state, .start jobId' =>
    state.isTerminal = true → jobId' ≠ jobId
  | .start _, _ => True

instance : DecidableRel Stays
  | .snapshot _ _, .snapshot _ _ => inferInstanceAs (Decidable (_ → _ → _))
  | .snapshot _ _, .start _ => inferInstanceAs (Decidable (_ → _))
  | .start _, _ => instDecidableTrue

def TerminalStays (w : QueueState) : Prop := w.history.Pairwise Stays

instance (w : QueueState) : Decidable (TerminalStays w) :=
  inferInstanceAs (Decidable (w.history.Pairwise Stays))

/-- No terminal snapshot of a job is issued and not yet written. -/
def NoneEnding (w : QueueState) (jobId : String) : Prop :=
  ∀ a ∈ w.tail, a.input.jobId = jobId → a.input.state.isTerminal = false

instance (w : QueueState) (jobId : String) : Decidable (NoneEnding w jobId) :=
  inferInstanceAs (Decidable (∀ a ∈ w.tail, _))

/-- The condition on a turn.  A cancel of a queued job: no loop is starting it.  A
loop that finds its job queued, and a runtime update: none is ending it. -/
def ReadsCurrent (w : QueueState) : Action → Prop
  | .cancel jobId _ =>
    w.stateOf jobId = some .queued → ∀ e ∈ w.activeBySource.entries, e.2.pc ≠ .starting jobId
  | .loopCheck source _ =>
    ∀ l ∈ w.activeBySource.get? source, ∀ jobId ∈ (w.jobsOf source l).head?,
      w.stateOf jobId = some .queued → NoneEnding w jobId
  | .report jobId _ _ => NoneEnding w jobId
  | _ => True

instance (w : QueueState) (a : Action) : Decidable (ReadsCurrent w a) := by
  apply @Action.casesOn (fun a => Decidable (ReadsCurrent w a)) a <;> intros <;>
    unfold ReadsCurrent <;> infer_instance

section Invariant

def LoopPc.open? : LoopPc → Option String
  | .checking => none
  | .starting jobId => some jobId
  | .started jobId => some jobId
  | .executing jobId => some jobId
  | .settling jobId _ => some jobId
  | .settled _ => none

theorem LoopPc.job?_of_open? {pc : LoopPc} {jobId : String} (h : pc.open? = some jobId) :
    pc.job? = some jobId := by
  cases pc <;> first | exact h | cases h

/-- A job that a loop has yet to end: it has not ended, and of the appends in
flight only the one the loop awaits ends it. -/
structure Unended (w : QueueState) (source jobId : String) : Prop where
  state : ∀ state, w.stateOf jobId = some state → state.isTerminal = false
  tail : ∀ a ∈ w.tail, a.input.jobId = jobId → a.input.state.isTerminal = true →
    a.owner = .settle source

/-- What holds in every state of a run whose turns read what is current. -/
structure Terminal (w : QueueState) : Prop where
  stays : TerminalStays w
  current : ∀ jobId state, Entry.snapshot jobId state ∈ w.history →
    state.isTerminal = true → w.stateOf jobId = some state
  inFlight : ∀ a ∈ w.tail, ∀ state, w.stateOf a.input.jobId = some state →
    state.isTerminal = true → a.input.state = state
  order : w.tail.Pairwise (fun a b => a.input.jobId = b.input.jobId →
    a.input.state.isTerminal = true → b.input.state = a.input.state)
  unended : ∀ source l jobId, w.activeBySource.get? source = some l →
    l.pc.open? = some jobId → Unended w source jobId

theorem Terminal.of_kept (h : Terminal w) (hjournal : t.journal = w.journal)
    (hhistory : t.history = w.history) (htail : t.tail.Sublist w.tail)
    (hloops : ∀ source l jobId, t.activeBySource.get? source = some l → l.pc.open? = some jobId →
      ∃ l', w.activeBySource.get? source = some l' ∧ l'.pc.open? = some jobId) :
    Terminal t := by
  have hstate : ∀ jobId, t.stateOf jobId = w.stateOf jobId := by
    intro jobId
    simp only [stateOf, hjournal]
  constructor
  · rw [TerminalStays, hhistory]
    exact h.stays
  · intro jobId state hmem hterminal
    rw [hstate]
    exact h.current jobId state (hhistory ▸ hmem) hterminal
  · intro a ha state hstateOf
    rw [hstate] at hstateOf
    exact h.inFlight a (htail.subset ha) state hstateOf
  · exact h.order.sublist htail
  · intro source l jobId hl hopen
    obtain ⟨l', hl', hopen'⟩ := hloops source l jobId hl hopen
    have hold := h.unended source l' jobId hl' hopen'
    constructor
    · intro state hstateOf
      rw [hstate] at hstateOf
      exact hold.state state hstateOf
    · exact fun a ha => hold.tail a (htail.subset ha)

theorem Terminal.of_onlyLoops (h : Terminal w) (hframe : OnlyLoops w t)
    (hloops : ∀ source l jobId, t.activeBySource.get? source = some l → l.pc.open? = some jobId →
      ∃ l', w.activeBySource.get? source = some l' ∧ l'.pc.open? = some jobId) :
    Terminal t := by
  refine h.of_kept hframe.journal hframe.history ?_ hloops
  rw [hframe.tail]

variable {source : String}

section

variable (h : Terminal w)
include h

theorem Terminal.putLoop {l : Loop}
    (hopen : ∀ jobId, l.pc.open? = some jobId → Unended w source jobId) :
    Terminal (w.putLoop source l) := by
  refine { h with unended := ?_ }
  intro source' l' jobId hl' hopen'
  rw [QueueState.putLoop, InsertionMap.get?_set] at hl'
  split_ifs at hl' with heq
  · cases hl'
    have hthis := hopen jobId hopen'
    rw [heq]
    exact ⟨hthis.state, hthis.tail⟩
  · have hold := h.unended source' l' jobId hl' hopen'
    exact ⟨hold.state, hold.tail⟩

theorem Terminal.schedule : Terminal (scheduleProcessing max w) := by
  refine scheduleProcessing_induct Terminal ?_ max h
  intro w source hw _
  have hput : Terminal (w.putLoop source
      { controller := w.controllers, pc := .checking, detached := none }) :=
    hw.putLoop (fun _ hopen => by cases hopen)
  exact hput.of_kept rfl rfl (List.Sublist.refl _) (fun _ l _ hl hopen => ⟨l, hl, hopen⟩)

theorem Terminal.leaveLoop :
    Terminal (leaveLoop max w source) := by
  refine Terminal.schedule (h.of_kept rfl rfl (List.Sublist.refl _) ?_)
  intro source' l jobId hl hopen
  rw [InsertionMap.get?_erase] at hl
  split_ifs at hl
  exact ⟨l, hl, hopen⟩

theorem Terminal.dropPending {source jobId : String} :
    Terminal (w.dropPending source jobId) := by
  refine h.of_onlyLoops (onlyLoops_dropPending w source jobId) ?_
  intro source' l jobId' hl hopen
  rw [get?_dropPending, Option.map_eq_some_iff] at hl
  obtain ⟨l', hl', rfl⟩ := hl
  rw [pc_droppedLoop] at hopen
  exact ⟨l', hl', hopen⟩

theorem Terminal.shiftJobs {l : Loop} :
    Terminal (shiftJobs w source l) := by
  refine h.of_onlyLoops (onlyLoops_shiftJobs w source l) ?_
  intro source' l' jobId hl' hopen
  rw [get?_shiftJobs] at hl'
  split_ifs at hl'
  · cases hl'
    cases hopen
  · exact ⟨l', hl', hopen⟩

theorem Terminal.issue {owner : Owner} {input : SnapshotInput}
    (hstate : ∀ state, w.stateOf input.jobId = some state →
      state.isTerminal = true → input.state = state)
    (htail : ∀ a ∈ w.tail, a.input.jobId = input.jobId →
      a.input.state.isTerminal = true → input.state = a.input.state)
    (hopen : input.state.isTerminal = true → ∀ source l,
      w.activeBySource.get? source = some l → l.pc.open? = some input.jobId →
      owner = .settle source) :
    Terminal (w.issue owner input) := by
  have hmem : ∀ a ∈ (w.issue owner input).tail, a ∈ w.tail ∨ a = ⟨owner, input⟩ := by
    intro a ha
    simpa [QueueState.issue] using ha
  constructor
  · exact h.stays
  · exact h.current
  · intro a ha
    rcases hmem a ha with ha | rfl
    · exact h.inFlight a ha
    · exact hstate
  · refine pairwise_append.mpr ⟨h.order, pairwise_singleton _ _, ?_⟩
    intro a ha b hb
    rw [mem_singleton.mp hb]
    exact htail a ha
  · intro source l jobId hl hjob
    have hold := h.unended source l jobId hl hjob
    refine ⟨hold.state, ?_⟩
    intro a ha hjobId hterminal
    rcases hmem a ha with ha | rfl
    · exact hold.tail a ha hjobId hterminal
    · exact hopen hterminal source l hl (hjobId ▸ hjob)

end

end Invariant

section Turns

theorem Terminal.issue_first {owner : Owner} {input : SnapshotInput} (h : Terminal w)
    (hfresh : Fresh w input.jobId) (hqueued : input.state = .queued) :
    Terminal (w.issue owner input) := by
  refine h.issue ?_ ?_ ?_
  · intro state hstate
    rw [stateOf, hfresh.unknown] at hstate
    cases hstate
  · intro a ha hjobId
    exact absurd hjobId (hfresh.unissued a ha)
  · intro hterminal
    rw [hqueued] at hterminal
    cases hterminal

variable {a : Append} {source jobId : String} {l : Loop}

theorem Coherent.cancels_of_queued (h : Coherent w) (ha : a ∈ w.tail)
    (hqueued : w.stateOf a.input.jobId = some .queued)
    (hterminal : a.input.state.isTerminal = true) : a.input.state = .cancelled := by
  have hwrites := h.registered.writes a ha
  cases howner : a.owner with
  | enqueue =>
    rw [howner] at hwrites
    rw [hwrites] at hterminal
    cases hterminal
  | retry =>
    rw [howner] at hwrites
    rw [hwrites] at hterminal
    cases hterminal
  | cancel =>
    rw [howner] at hwrites
    exact hwrites
  | report =>
    rw [howner] at hwrites
    rw [hwrites] at hterminal
    cases hterminal
  | start =>
    rw [howner] at hwrites
    rw [hwrites] at hterminal
    cases hterminal
  | settle source =>
    obtain ⟨l, hl, hawaits, hjob⟩ := h.linked.awaited a ha source (by rw [howner]; rfl)
    have hbegun : l.pc.begun? = some a.input.jobId := by
      rw [howner] at hawaits
      cases hpc : l.pc <;> rw [hpc] at hawaits hjob <;>
        first | exact hjob | cases hawaits
    obtain ⟨state, hstate, hne⟩ := h.begun source l _ hl hbegun
    rw [hqueued] at hstate
    cases hstate
    exact absurd rfl hne

theorem Unended.noneEnding (h : Unended w source jobId)
    (hfree : ∀ a ∈ w.tail, a.owner.source? ≠ some source) : NoneEnding w jobId := by
  intro a ha hjobId
  by_contra hterminal
  have howner := h.tail a ha hjobId (by simpa using hterminal)
  exact hfree a ha (by rw [howner]; rfl)

section

variable (h : Terminal w)
include h

theorem Terminal.end_issue {caught : Bool} {input : SnapshotInput}
    (hl : w.activeBySource.get? source = some l) (hopen : l.pc.open? = some jobId)
    (halone : ∀ source' l', w.activeBySource.get? source' = some l' →
      l'.pc.job? = some jobId → source' = source)
    (hjobId : input.jobId = jobId) (hnone : NoneEnding w jobId) :
    Terminal ((w.putLoop source { l with pc := .settling jobId caught }).issue
      (.settle source) input) := by
  have hunended := h.unended source l jobId hl hopen
  have hput : Terminal (w.putLoop source { l with pc := .settling jobId caught }) := by
    refine h.putLoop ?_
    intro jobId' hjob
    cases hjob
    exact hunended
  refine hput.issue ?_ ?_ ?_
  · intro state hstate hterminal
    have hnot := hunended.state state (hjobId ▸ hstate)
    rw [hnot] at hterminal
    cases hterminal
  · intro a ha hsame hterminal
    rw [hnone a ha (hsame.trans hjobId)] at hterminal
    cases hterminal
  · intro _ source' l' hl' hopen'
    rw [QueueState.putLoop, InsertionMap.get?_set] at hl'
    split_ifs at hl' with heq
    · rw [heq]
    · exact absurd (halone source' l' hl' (LoopPc.job?_of_open? (hjobId ▸ hopen'))) heq

omit h in
/-- Code that goes on after its append: a loop that has yet to end its job was at
the job before, and it did not await the end of it. -/
theorem open_of_notify {rest : List Append} {snapshot : WorkspaceJobSnapshot}
    {journal : Journal} (hlinked : Linked w) (ha : a ∈ w.tail)
    (hjobId : snapshot.jobId = a.input.jobId)
    (hl : ((w.written rest snapshot journal).notify a.owner
      snapshot).activeBySource.get? source = some l)
    (hopen : l.pc.open? = some jobId) :
    ∃ l', w.activeBySource.get? source = some l' ∧ l'.pc.open? = some jobId ∧
      a.owner ≠ .settle source := by
  cases howner : a.owner with
  | enqueue =>
    rw [howner] at hl
    exact ⟨l, hl, hopen, Owner.noConfusion⟩
  | retry =>
    rw [howner] at hl
    exact ⟨l, hl, hopen, Owner.noConfusion⟩
  | cancel =>
    rw [howner] at hl
    exact ⟨l, hl, hopen, Owner.noConfusion⟩
  | report =>
    rw [howner] at hl
    exact ⟨l, hl, hopen, Owner.noConfusion⟩
  | start source' =>
    obtain ⟨l', hl', hawaits, hjob⟩ := hlinked.awaited a ha source' (by rw [howner]; rfl)
    have hactive : (w.written rest snapshot journal).activeBySource.get? source' = some l' := hl'
    rw [howner] at hl
    simp only [notify, loopWritten, hactive] at hl
    rw [QueueState.putLoop, InsertionMap.get?_set] at hl
    split_ifs at hl with heq
    · cases hl
      cases hopen
      refine ⟨l', heq ▸ hl', ?_, Owner.noConfusion⟩
      rw [howner] at hawaits
      rw [hjobId]
      cases hpc : l'.pc <;> rw [hpc] at hawaits hjob <;>
        first | exact hjob | cases hawaits
    · exact ⟨l, hl, hopen, Owner.noConfusion⟩
  | settle source' =>
    obtain ⟨l', hl', _⟩ := hlinked.awaited a ha source' (by rw [howner]; rfl)
    have hactive : (w.written rest snapshot journal).activeBySource.get? source' = some l' := hl'
    rw [howner] at hl
    simp only [notify, loopWritten, hactive] at hl
    rw [QueueState.putLoop, InsertionMap.get?_set] at hl
    split_ifs at hl with heq
    · cases hl
      cases hopen
    · refine ⟨l, hl, hopen, ?_⟩
      intro hsettle
      cases hsettle
      exact heq rfl

theorem terminal_commit {rest : List Append} {eventId : String}
    {snapshot : WorkspaceJobSnapshot} {journal : Journal} (hlinked : Linked w)
    (htail : w.tail = a :: rest) (happend :
      w.journal.appendSnapshotSerial a.input eventId = .ok (snapshot, journal)) :
    Terminal ((w.written rest snapshot journal).notify a.owner snapshot) := by
  have hmem : a ∈ w.tail := by
    rw [htail]
    exact mem_cons_self
  have hsub : rest.Sublist w.tail := by
    rw [htail]
    exact sublist_cons_self a rest
  have horder := h.order
  rw [htail, pairwise_cons] at horder
  obtain ⟨hjobId, hstateEq, _⟩ := state_of_append happend
  have hkeeps := notify_keeps (w.written rest snapshot journal) a.owner snapshot
  have hstateOf : ∀ jobId,
      ((w.written rest snapshot journal).notify a.owner snapshot).stateOf jobId =
        if jobId = a.input.jobId then some a.input.state else w.stateOf jobId := by
    intro jobId
    rw [← stateOf_written happend, stateOf, stateOf, hkeeps.journal]
  constructor
  · rw [TerminalStays, hkeeps.history]
    refine pairwise_append.mpr ⟨h.stays, pairwise_singleton _ _, ?_⟩
    intro e he e' he'
    rw [mem_singleton.mp he']
    cases e with
    | snapshot jobId state =>
      intro hterminal hsame
      have hcurrent := h.current jobId state he hterminal
      rw [← hsame, hjobId] at hcurrent
      rw [hstateEq]
      exact h.inFlight a hmem state hcurrent hterminal
    | start => trivial
  · intro jobId state hmemHistory hterminal
    rw [hkeeps.history] at hmemHistory
    rw [hstateOf]
    rcases mem_append.mp hmemHistory with hold | hnew
    · have hcurrent := h.current jobId state hold hterminal
      split_ifs with hsame
      · exact congrArg some (h.inFlight a hmem state (hsame ▸ hcurrent) hterminal)
      · exact hcurrent
    · cases mem_singleton.mp hnew
      rw [if_pos hjobId, hstateEq]
  · intro b hb state hstate hterminal
    rw [hkeeps.tail] at hb
    rw [hstateOf] at hstate
    split_ifs at hstate with hsame
    · cases hstate
      exact horder.1 b hb hsame.symm hterminal
    · exact h.inFlight b (hsub.subset hb) state hstate hterminal
  · rw [hkeeps.tail]
    exact horder.2
  · intro source l jobId hl hopen
    -- the loop was at the job before, and the append was not its last one
    obtain ⟨l', hl', hopen', hother⟩ := open_of_notify hlinked hmem hjobId hl hopen
    have hold := h.unended source l' jobId hl' hopen'
    have hnot : jobId = a.input.jobId → a.input.state.isTerminal = false := by
      intro hsame
      by_contra hterminal
      exact hother (hold.tail a hmem hsame.symm (by simpa using hterminal))
    constructor
    · intro state hstate
      rw [hstateOf] at hstate
      split_ifs at hstate with hsame
      · cases hstate
        exact hnot hsame
      · exact hold.state state hstate
    · intro b hb
      rw [hkeeps.tail] at hb
      exact hold.tail b (hsub.subset hb)

theorem Terminal.cancelQueued {jobId now : String} {job : WorkspaceJobSnapshot}
    (hcoherent : Coherent w) (hjob : w.journal.getJob jobId = some job)
    (hstate : job.state = .queued) (hreads : ReadsCurrent w (.cancel jobId now)) :
    Terminal ((w.dropPending job.sourceId jobId).issue .cancel
      (queuedCancelledInput job now)) := by
  have hloops := onlyLoops_dropPending w job.sourceId jobId
  have hid : (queuedCancelledInput job now).jobId = jobId := Journal.jobId_of_getJob hjob
  have hqueued : w.stateOf jobId = some .queued := by
    rw [stateOf, hjob, ← hstate]
    rfl
  refine h.dropPending.issue ?_ ?_ ?_
  · intro state hstateOf hterminal
    rw [hloops.stateOf, hid, hqueued] at hstateOf
    cases hstateOf
    cases hterminal
  · intro a ha hsame hterminal
    rw [hloops.tail] at ha
    rw [hid] at hsame
    exact (hcoherent.cancels_of_queued ha (hsame ▸ hqueued) hterminal).symm
  · intro _ source l hl hopen
    rw [get?_dropPending, Option.map_eq_some_iff] at hl
    obtain ⟨l', hl', rfl⟩ := hl
    rw [pc_droppedLoop, hid] at hopen
    have hstarts := hreads hqueued (source, l') ((InsertionMap.get?_eq_some_iff ..).mp hl')
    -- a loop that has begun is not at a queued job
    have hbegun : l'.pc.begun? = some jobId → False := by
      intro hbegun
      obtain ⟨state, hstateOf, hne⟩ := hcoherent.begun source l' jobId hl' hbegun
      rw [hqueued] at hstateOf
      cases hstateOf
      exact hne rfl
    cases hpc : l'.pc with
    | checking =>
      rw [hpc] at hopen
      cases hopen
    | starting =>
      rw [hpc] at hopen
      cases hopen
      exact absurd hpc hstarts
    | started => exact (hbegun (by rw [hpc] at hopen ⊢; exact hopen)).elim
    | executing => exact (hbegun (by rw [hpc] at hopen ⊢; exact hopen)).elim
    | settling =>
      exact (hbegun (by rw [hpc] at hopen ⊢; exact hopen)).elim
    | settled =>
      rw [hpc] at hopen
      cases hopen

theorem Terminal.report {jobId now : String} {update : WorkspaceJobRuntimeUpdate}
    {current : WorkspaceJobSnapshot} (hcurrent : w.journal.getJob jobId = some current)
    (hterminal : current.state.isTerminal = false) (hreads : NoneEnding w jobId) :
    Terminal (w.issue .report (reportInput current update now)) := by
  have hid : (reportInput current update now).jobId = jobId := Journal.jobId_of_getJob hcurrent
  refine h.issue ?_ ?_ ?_
  · intro state hstateOf hended
    rw [hid, stateOf, hcurrent] at hstateOf
    cases hstateOf
    rw [hterminal] at hended
    cases hended
  · intro a ha hsame hended
    rw [hreads a ha (hsame.trans hid)] at hended
    cases hended
  · intro hended
    cases hended

theorem Terminal.loopQueued {source now jobId : String} {rest : List String}
    {current : WorkspaceJobSnapshot} (hl : w.activeBySource.get? source = some l)
    (hjobs : w.jobsOf source l = jobId :: rest) (hcurrent : w.journal.getJob jobId = some current)
    (hstate : current.state = .queued) (hreads : ReadsCurrent w (.loopCheck source now)) :
    Terminal ((w.putLoop source { l with pc := .starting jobId }).issue
      (.start source) (runningInput current now)) := by
  have hid : (runningInput current now).jobId = jobId := Journal.jobId_of_getJob hcurrent
  have hqueued : w.stateOf jobId = some .queued := by
    rw [stateOf, hcurrent, ← hstate]
    rfl
  have hnone : NoneEnding w jobId := by
    refine hreads l hl jobId ?_ hqueued
    rw [hjobs]
    rfl
  have hput : Terminal (w.putLoop source { l with pc := .starting jobId }) := by
    refine h.putLoop ?_
    intro jobId' hopen
    cases hopen
    constructor
    · intro state hstateOf
      rw [hqueued] at hstateOf
      cases hstateOf
      rfl
    · intro a ha hsame hended
      rw [hnone a ha hsame] at hended
      cases hended
  refine hput.issue ?_ ?_ ?_
  · intro state hstateOf hended
    have hold : w.stateOf jobId = some state := hid ▸ hstateOf
    rw [hqueued] at hold
    cases hold
    cases hended
  · intro a ha hsame hended
    rw [hnone a ha (hsame.trans hid)] at hended
    cases hended
  · intro hended
    cases hended

theorem Terminal.loopStart
    (hl : w.activeBySource.get? source = some l) (hpc : l.pc = .started jobId) :
    Terminal
      { w.putLoop source { l with pc := .executing jobId } with
        handed := w.handed ++ [(jobId, l.controller)]
        history := w.history ++ [.start jobId] } := by
  have hunended := h.unended source l jobId hl (by rw [hpc]; rfl)
  have hput : Terminal (w.putLoop source { l with pc := .executing jobId }) := by
    refine h.putLoop ?_
    intro jobId' hopen
    cases hopen
    exact hunended
  refine { stays := ?_, current := ?_, inFlight := hput.inFlight
           order := hput.order, unended := ?_ }
  · refine pairwise_append.mpr ⟨h.stays, pairwise_singleton _ _, ?_⟩
    intro e he e' he'
    rw [mem_singleton.mp he']
    cases e with
    | snapshot jobId' state =>
      intro hended hsame
      have hcurrent := h.current jobId' state he hended
      rw [hunended.state state (hsame ▸ hcurrent)] at hended
      cases hended
    | start => trivial
  · intro jobId' state hmem hended
    rcases mem_append.mp hmem with hold | hnew
    · exact h.current jobId' state hold hended
    · cases mem_singleton.mp hnew
  · intro source' l' jobId' hl' hopen
    have hold := hput.unended source' l' jobId' hl' hopen
    exact ⟨hold.state, hold.tail⟩

theorem terminal_step {a : Action} (hcoherent : Coherent w)
    (hturn : Turn max w a t) (hreads : ReadsCurrent w a) : Terminal t := by
  have hsame : ∀ {u : QueueState}, u.journal = w.journal →
      u.history = w.history → u.tail.Sublist w.tail →
      u.activeBySource = w.activeBySource → Terminal u := by
    intro u hjournal hhistory htail hactive
    refine h.of_kept hjournal hhistory htail ?_
    intro source l jobId hl hopen
    exact ⟨l, hactive ▸ hl, hopen⟩
  have hfree : ∀ {source l}, w.activeBySource.get? source = some l →
      l.pc.awaits source = none → ∀ a ∈ w.tail, a.owner.source? ≠ some source := by
    intro source l hl hpc
    refine hcoherent.linked.unawaited ?_
    intro l' hl'
    rw [hl] at hl'
    cases hl'
    exact hpc
  have halone : ∀ {source jobId l}, w.activeBySource.get? source = some l →
      l.pc.open? = some jobId → ∀ source' l', w.activeBySource.get? source' = some l' →
        l'.pc.job? = some jobId → source' = source := by
    intro source jobId l hl hopen source' l' hl' hjob
    exact hcoherent.source_eq hl' hl hjob (LoopPc.job?_of_open? hopen)
  cases hturn with
  | call => exact hsame rfl rfl (List.Sublist.refl _) rfl
  | refuse => exact hsame rfl rfl (List.Sublist.refl _) rfl
  | @enqueue jobId now request _ _ _ hfresh =>
    have hissue : Terminal (w.issue .enqueue (queuedInput request.scope jobId now)) :=
      h.issue_first hfresh rfl
    exact hissue.of_kept rfl rfl (List.Sublist.refl _) (fun _ l _ hl hopen => ⟨l, hl, hopen⟩)
  | enqueueResume =>
    exact Terminal.schedule (hsame rfl rfl (List.Sublist.refl _) rfl)
  | retry _ hfresh => exact h.issue_first hfresh rfl
  | retryResume =>
    exact Terminal.schedule (hsame rfl rfl (List.Sublist.refl _) rfl)
  | cancelNothing => exact h
  | cancelQueued hjob hstate => exact h.cancelQueued hcoherent hjob hstate hreads
  | cancelActive =>
    exact hsame rfl rfl (List.Sublist.refl _) rfl
  | reportNothing => exact h
  | report hcurrent hterminal => exact h.report hcurrent hterminal hreads
  | loopLeave => exact h.leaveLoop
  | loopQueued hl _ hjobs hcurrent hstate =>
    exact h.loopQueued hl hjobs hcurrent hstate hreads
  | loopSkip =>
    exact h.putLoop (fun _ hopen => by cases hopen)
  | loopStart hl hpc => exact h.loopStart hl hpc
  | executorKeeps => exact h.putLoop (fun _ hopen => by cases hopen)
  | @executorEnds _ source jobId _ l _ _ _ hl hpc hlatest hinput =>
    have hopen : l.pc.open? = some jobId := by
      rw [hpc]
      rfl
    exact h.end_issue hl hopen (halone hl hopen)
      (hinput.jobId.trans (Journal.jobId_of_getJob hlatest))
      ((h.unended source l jobId hl hopen).noneEnding (hfree hl (by rw [hpc]; rfl)))
  | loopShift => exact h.shiftJobs
  | commit htail happend => exact terminal_commit h hcoherent.linked htail happend
  | @failsAlone _ _ a rest _ htail =>
    have hsub : rest.Sublist w.tail := by
      rw [htail]
      exact sublist_cons_self a rest
    exact hsame rfl rfl hsub rfl
  | @failsLeave _ _ _ a rest htail =>
    have hsub : rest.Sublist w.tail := by
      rw [htail]
      exact sublist_cons_self a rest
    exact Terminal.leaveLoop (hsame rfl rfl hsub rfl)
  | @failsCaught message now source jobId a rest l latest input htail howner hl hpc
      hlatest hinput =>
      have hsub : rest.Sublist w.tail := by
        rw [htail]
        exact sublist_cons_self a rest
      have hrest : Terminal { w with tail := rest } := hsame rfl rfl hsub rfl
      have hopen : l.pc.open? = some jobId := by
        rw [hpc]
        rfl
      refine hrest.end_issue hl hopen (halone hl hopen)
        (hinput.jobId.trans (Journal.jobId_of_getJob hlatest)) ?_
      exact (hrest.unended source l jobId hl hopen).noneEnding
        (hcoherent.linked.alone htail (by rw [howner]; rfl))

end

end Turns

theorem terminal_initially (max : Nat) (journal : Journal) :
    Terminal <| QueueState.initialize max journal := by
  have hmem : ∀ e ∈ journal.getCurrentJobs.map
      (fun job => Entry.snapshot job.jobId job.state), ∃ jobId state, e = .snapshot jobId state ∧
          (journal.getJob jobId).map (fun job => job.state) = some state := by
    intro e he
    obtain ⟨job, hjob, rfl⟩ := mem_map.mp he
    exact ⟨job.jobId, job.state, rfl, by rw [Journal.mem_getCurrentJobs.mp hjob]; rfl⟩
  refine Terminal.schedule ⟨?_, ?_, ?_, List.Pairwise.nil, ?_⟩
  · refine pairwise_of_forall_mem_list ?_
    intro e he e' he'
    obtain ⟨jobId, state, rfl, hstate⟩ := hmem e he
    obtain ⟨jobId', state', rfl, hstate'⟩ := hmem e' he'
    intro _ hsame
    rw [hsame, hstate] at hstate'
    exact (Option.some.inj hstate').symm
  · intro jobId state he _
    obtain ⟨jobId', state', heq, hstate⟩ := hmem _ he
    cases heq
    exact hstate
  · intro a ha
    cases ha
  · intro source l jobId hl
    cases hl

/-- **A terminal job stays terminal** in every run whose turns read what is
current. -/
theorem terminal_stays (max : Nat) (journal : Journal) (actions : List Action)
    (hreads : EveryStep (step max) (fun w a _ => ReadsCurrent w a)
      ( QueueState.initialize max journal) actions) :
    EveryStep (step max) (fun _ _ t => TerminalStays t)
      ( QueueState.initialize max journal) actions := by
  have hpres : ∀ w a t, Coherent w ∧ Terminal w → step max w a = some t →
      ReadsCurrent w a → Coherent t ∧ Terminal t := by
    intro w a t hw hstep ha
    have hturn := turn_of_step hstep
    exact ⟨coherent_step hw.1 hturn, terminal_step hw.2 hw.1 hturn ha⟩
  refine EveryStep.of_invariant hpres ?_
    ⟨coherent_initially max journal, terminal_initially max journal⟩ hreads
  intro w a t hw hstep ha
  exact (hpres w a t hw hstep ha).2.stays

/-- Two jobs of one source, the first of them executing. -/
def firstExecutes : List Action :=
  enqueued "first" "a" ++ enqueued "second" "b" ++
    [.loopCheck "main" "t", .commit "1", .loopStart "main"]

def firstCompletes : Action :=
  .executorReturns "main" (.completed none)
    { cleanupSafe := none, cleanupRequired := none, cleanupReason := none } "t"

/-- The second job is cancelled while the first one executes, and the cancel is
written before the loop goes on. -/
def cancelledInTime : List Action :=
  firstExecutes ++ [.cancel "b" "t", firstCompletes, .commit "2", .commit "3", .loopShift "main",
      .loopCheck "main" "t", .loopShift "main", .loopCheck "main" "t"]

theorem terminal_stays_cancelledInTime :
    EveryStep (step 3) (fun _ _ t => TerminalStays t)
      ( QueueState.initialize 3 Journal.empty) cancelledInTime :=
  terminal_stays 3 Journal.empty cancelledInTime (by decide +kernel)

/-- The second job is cancelled while the snapshot of the first one is written,
and the loop goes on before the cancel is. -/
def cancelledTooLate : List Action :=
  firstExecutes ++ [firstCompletes, .cancel "b" "t", .commit "2", .loopShift "main",
      .loopCheck "main" "t", .commit "3", .commit "4"]

/-- **A cancelled job is shown as running.** -/
theorem cancelled_job_runs :
    (runActions (step 3) ( QueueState.initialize 3 Journal.empty) cancelledTooLate).isSome ∧
      ¬ EveryStep (step 3) (fun _ _ t => TerminalStays t)
        ( QueueState.initialize 3 Journal.empty) cancelledTooLate := by
  decide +kernel

end WorkspaceJobs
end StudioWeb
