import StudioWeb.WorkspaceJobs.ExecutorStarts
import StudioWeb.WorkspaceJobs.QueueCalls

/-!
# Scheduling the sources

`scheduleProcessing` runs when a job is put into an array and when a loop ends.

* `Room`: there are not more loops than allowed, and while there are fewer, every
  source with an array has its loop.
* `Kept`: a job that is shown as queued is in an array, unless its cancel is
  issued.
-/

namespace StudioWeb
namespace WorkspaceJobs

open LabelledRuns List Option QueueState InsertionMap

variable {max : Nat} {w t : QueueState}

section Room

/-- Not more loops than allowed, and none missing while there are fewer. -/
structure Room (max : Nat) (w : QueueState) : Prop where
  fits : w.activeBySource.size ≤ max
  covered : w.activeBySource.size < max → ∀ source jobs, w.pendingBySource.get? source = some jobs →
    ∃ l, w.activeBySource.get? source = some l

theorem Room.of_kept (h : Room max w) (hsize : t.activeBySource.size = w.activeBySource.size)
    (hactive : ∀ source l, w.activeBySource.get? source = some l →
      ∃ l', t.activeBySource.get? source = some l')
    (hpending : PendingFrom w t) : Room max t := by
  constructor
  · rw [hsize]
    exact h.fits
  · intro hroom source jobs hjobs
    rw [hsize] at hroom
    obtain ⟨jobs', hjobs'⟩ := hpending source jobs hjobs
    obtain ⟨l, hl⟩ := h.covered hroom source jobs' hjobs'
    exact hactive source l hl

variable {source : String} {l l' : Loop}

theorem size_putLoop (hl : w.activeBySource.get? source = some l) :
    (w.putLoop source l').activeBySource.size = w.activeBySource.size := by
  have hmem : source ∈ w.activeBySource.keys := (mem_keys_iff ..).mpr ⟨l, hl⟩
  rw [putLoop, size_set, if_pos hmem]

theorem size_activate (hnone : w.activeBySource.get? source = none) :
    (w.activate source).activeBySource.size = w.activeBySource.size + 1 := by
  have hmem : source ∉ w.activeBySource.keys := (get?_eq_none_iff ..).mp hnone
  rw [activate, putLoop, size_set, if_neg hmem]

theorem active_putLoop {source source' : String} (hl : w.activeBySource.get? source = some l) :
    ∃ l'', (w.putLoop source' l').activeBySource.get? source = some l'' := by
  rw [putLoop, get?_set]
  split_ifs
  · exact ⟨l', rfl⟩
  · exact ⟨l, hl⟩

theorem Room.putLoop (h : Room max w)
    (hl : w.activeBySource.get? source = some l) : Room max (w.putLoop source l') :=
  h.of_kept (size_putLoop hl) (fun _ _ hl => active_putLoop hl) (fun _ jobs hjobs => ⟨jobs, hjobs⟩)

/-- **Scheduling leaves no source without a loop while there is room.** -/
theorem room_scheduleRounds (rounds : Nat) :
    ∀ w : QueueState, w.activeBySource.size ≤ max → max ≤ w.activeBySource.size + rounds →
      (∀ source jobs, w.pendingBySource.get? source = some jobs → source ≠ "") →
      Room max (scheduleRounds max rounds w) := by
  induction rounds with
  | zero =>
    intro w hfits hrounds _
    refine ⟨hfits, ?_⟩
    intro hroom
    change w.activeBySource.size < max at hroom
    omega
  | succ _ ih =>
    intro w hfits hrounds hnamed
    unfold scheduleRounds
    split_ifs with hroom
    · split
      · next hnext =>
        refine ⟨hfits, ?_⟩
        intro _ source jobs hjobs
        have hkey : source ∈ w.pendingBySource.keys := (mem_keys_iff ..).mpr ⟨jobs, hjobs⟩
        have hactive := find?_eq_none.mp hnext source hkey
        rw [isNone_iff_eq_none] at hactive
        exact ne_none_iff_exists'.mp hactive
      · next source hnext =>
        obtain ⟨jobs, hjobs⟩ := (mem_keys_iff ..).mp (mem_of_find?_eq_some hnext)
        have hnone := find?_some hnext
        rw [isNone_iff_eq_none] at hnone
        rw [if_neg (hnamed source jobs hjobs)]
        have hsize := size_activate hnone
        exact ih _ (by omega) (by omega) hnamed
    · refine ⟨hfits, ?_⟩
      intro h
      exact absurd h hroom

theorem room_schedule (hfits : w.activeBySource.size ≤ max)
    (hnamed : ∀ source jobs, w.pendingBySource.get? source = some jobs → source ≠ "") :
    Room max (scheduleProcessing max w) :=
  room_scheduleRounds max w hfits (Nat.le_add_left _ _) hnamed

theorem room_leaveLoop (h : Room max w) (hnamed : Named w) :
    Room max (leaveLoop max w source) := by
  refine room_schedule ?_ ?_
  · exact le_trans (size_erase_le _ _) h.fits
  · intro source' jobs hjobs
    dsimp only at hjobs
    split_ifs at hjobs
    · rw [get?_erase] at hjobs
      split_ifs at hjobs
      exact hnamed.pending source' jobs hjobs
    · exact hnamed.pending source' jobs hjobs

theorem Room.dropPending {source jobId : String} (h : Room max w) :
    Room max (w.dropPending source jobId) := by
  refine h.of_kept ?_ ?_ (pendingFrom_dropPending w source jobId)
  · unfold QueueState.dropPending QueueState.detach
    split
    · rfl
    · split
      · rfl
      · next _ hl => exact size_putLoop hl
  · intro source' l hl
    rw [get?_dropPending, hl]
    exact ⟨_, rfl⟩

theorem Room.shiftJobs {l : Loop} (h : Room max w)
    (hl : w.activeBySource.get? source = some l) : Room max (shiftJobs w source l) := by
  refine h.of_kept ?_ ?_ (pendingFrom_shiftJobs w source l)
  · unfold WorkspaceJobs.shiftJobs
    split <;> exact size_putLoop hl
  · intro source' l' hl'
    rw [get?_shiftJobs]
    split_ifs
    · exact ⟨l.shifted, rfl⟩
    · exact ⟨l', hl'⟩

theorem Room.loopWritten {pc : LoopPc} (h : Room max w) :
    Room max (w.loopWritten source pc) := by
  unfold QueueState.loopWritten
  split
  · exact h
  · next _ hl => exact h.putLoop hl

theorem room_step {a : Action} (h : Room max w) (hnamed : Named w) (hturn : Turn max w a t)
    (hsucceeds : Succeeds a) : Room max t := by
  have hsame : ∀ {u v : QueueState}, Room max v → u.activeBySource = v.activeBySource →
      u.pendingBySource = v.pendingBySource → Room max u := by
    intro u v hv hactive hpending
    refine hv.of_kept (by rw [hactive]) ?_ (fun _ jobs hjobs => ⟨jobs, hpending ▸ hjobs⟩)
    intro source l hl
    exact ⟨l, hactive ▸ hl⟩
  have hqueue : ∀ job ∈ w.resumable, ∀ source jobs,
      (queueJob w.pendingBySource job).get? source = some jobs → source ≠ "" := by
    intro job hjob source jobs hjobs
    rcases pending_queueJob hjobs with rfl | ⟨jobs', hjobs'⟩
    · exact hnamed.resumable job hjob
    · exact hnamed.pending source jobs' hjobs'
  cases hturn with
  | call => exact hsame h rfl rfl
  | refuse => exact hsame h rfl rfl
  | enqueue => exact hsame h rfl rfl
  | @enqueueResume job hjob =>
    refine room_schedule h.fits (hqueue job ?_)
    rw [resumable, hjob]
    exact mem_cons_self
  | retry => exact hsame h rfl rfl
  | @retryResume job hjob =>
    exact room_schedule h.fits (hqueue job ((retried_sublist_resumable w).subset hjob))
  | cancelNothing => exact h
  | cancelQueued => exact hsame h.dropPending rfl rfl
  | cancelActive => exact hsame h rfl rfl
  | reportNothing => exact h
  | report => exact hsame h rfl rfl
  | loopLeave => exact room_leaveLoop h hnamed
  | @loopQueued source _ jobId _ l _ hl =>
    have hput : Room max (w.putLoop source { l with pc := .starting jobId }) := h.putLoop hl
    exact hsame hput rfl rfl
  | loopSkip hl => exact h.putLoop hl
  | @loopStart source jobId l hl =>
    have hput : Room max (w.putLoop source { l with pc := .executing jobId }) := h.putLoop hl
    exact hsame hput rfl rfl
  | executorKeeps _ hl => exact h.putLoop hl
  | @executorEnds _ source jobId caught l _ _ _ hl =>
    have hput : Room max (w.putLoop source { l with pc := .settling jobId caught }) := h.putLoop hl
    exact hsame hput rfl rfl
  | loopShift hl => exact h.shiftJobs hl
  | @commit _ a rest snapshot journal =>
    have hwritten : Room max (w.written rest snapshot journal) := hsame h rfl rfl
    cases howner : a.owner with
    | enqueue => exact hsame h rfl rfl
    | retry => exact hsame h rfl rfl
    | cancel => exact hwritten
    | report => exact hwritten
    | start => exact hwritten.loopWritten
    | settle => exact hwritten.loopWritten
  | failsAlone => exact hsucceeds.elim
  | failsLeave => exact hsucceeds.elim
  | failsCaught => exact hsucceeds.elim

end Room

section Kept

def CancelIssued (w : QueueState) (jobId : String) : Prop :=
  ∃ a ∈ w.tail, a.owner = .cancel ∧ a.input.jobId = jobId

/-- A job that was put into an array and is shown as queued is still in one. -/
def Kept (w : QueueState) : Prop :=
  ∀ jobId source, (jobId, source) ∈ w.issued → w.stateOf jobId = some .queued →
    w.Holds source jobId ∨ CancelIssued w jobId

theorem holds_of_kept {source jobId : String} (h : w.Holds source jobId)
    (harray : ∀ source, ∀ jobId ∈ w.arrayOf source, jobId ∈ t.arrayOf source)
    (hactive : ∀ source l, w.activeBySource.get? source = some l →
      ∃ l', t.activeBySource.get? source = some l' ∧ l'.detached = l.detached) :
    t.Holds source jobId := by
  rcases h with hmem | ⟨l, hl, hjobs⟩
  · exact Or.inl (harray source jobId hmem)
  · obtain ⟨l', hl', hdetached⟩ := hactive source l hl
    refine Or.inr ⟨l', hl', ?_⟩
    cases hown : l.detached with
    | none =>
      simp only [jobsOf, hown] at hjobs
      simp only [jobsOf, hdetached, hown]
      exact harray source jobId hjobs
    | some =>
      simp only [jobsOf, hown] at hjobs
      simpa only [jobsOf, hdetached, hown] using hjobs

theorem holds_schedule {source jobId : String} (h : w.Holds source jobId) :
    (scheduleProcessing max w).Holds source jobId := by
  refine scheduleProcessing_induct (fun t => t.Holds source jobId) ?_ max h
  intro t source' ht hnone
  refine holds_of_kept ht (fun _ _ hmem => hmem) ?_
  intro source'' l hl
  refine ⟨l, ?_, rfl⟩
  have hne : source'' ≠ source' := by
    rintro rfl
    rw [hnone] at hl
    cases hl
  rw [activate, putLoop, get?_set, if_neg hne]
  exact hl

variable {source source' jobId : String} {l : Loop}

theorem holds_putLoop {pc : LoopPc}
    (hl : w.activeBySource.get? source = some l) (h : w.Holds source' jobId) :
    (w.putLoop source { l with pc := pc }).Holds source' jobId := by
  refine holds_of_kept h (fun _ _ hmem => hmem) ?_
  intro source'' l' hl'
  rw [putLoop, get?_set]
  split_ifs with heq
  · rw [heq, hl] at hl'
    cases hl'
    exact ⟨_, rfl, rfl⟩
  · exact ⟨l', hl', rfl⟩

theorem holds_loopWritten {pc : LoopPc}
    (h : w.Holds source' jobId) : (w.loopWritten source pc).Holds source' jobId := by
  unfold QueueState.loopWritten
  split
  · exact h
  · next _ hl => exact holds_putLoop hl h

theorem holds_dropPending {source source' jobId jobId' : String} (hne : jobId' ≠ jobId)
    (h : w.Holds source' jobId') : (w.dropPending source jobId).Holds source' jobId' := by
  rcases h with hmem | ⟨l, hl, hjobs⟩
  · refine Or.inl ?_
    rw [arrayOf_dropPending]
    split_ifs with heq
    · exact mem_filter.mpr ⟨heq ▸ hmem, decide_eq_true hne⟩
    · exact hmem
  · refine Or.inr ⟨w.droppedLoop source source' l, ?_, ?_⟩
    · rw [get?_dropPending, hl]
      rfl
    · rw [jobsOf_dropPending]
      exact hjobs

theorem mem_tail_of_ne_head {jobs : List String} {head jobId : String}
    (hhead : ∃ rest, jobs = head :: rest) (hne : jobId ≠ head) (hmem : jobId ∈ jobs) :
    jobId ∈ jobs.tail := by
  obtain ⟨rest, rfl⟩ := hhead
  exact (mem_cons.mp hmem).resolve_left hne

theorem holds_shiftJobs {source source' head jobId : String}
    (hl : w.activeBySource.get? source = some l) (hhead : ∃ rest, w.jobsOf source l = head :: rest)
    (hne : jobId ≠ head) (h : w.Holds source' jobId) :
    (shiftJobs w source l).Holds source' jobId := by
  rcases h with hmem | ⟨l', hl', hjobs⟩
  · refine Or.inl ?_
    rw [arrayOf_shiftJobs]
    split_ifs with heq
    · refine mem_tail_of_ne_head ?_ hne (heq.1 ▸ hmem)
      simpa only [jobsOf, arrayOf, heq.2] using hhead
    · exact hmem
  · by_cases heq : source' = source
    · rw [heq, hl] at hl'
      cases hl'
      refine Or.inr ⟨l.shifted, ?_, ?_⟩
      · rw [get?_shiftJobs, if_pos heq]
      · rw [heq, jobsOf_shifted]
        exact mem_tail_of_ne_head hhead hne (heq ▸ hjobs)
    · refine Or.inr ⟨l', ?_, ?_⟩
      · rw [get?_shiftJobs, if_neg heq]
        exact hl'
      · rw [jobsOf_shiftJobs w l l' heq]
        exact hjobs

theorem holds_leaveLoop
    (hl : w.activeBySource.get? source = some l) (hempty : w.jobsOf source l = [])
    (h : w.Holds source' jobId) : (leaveLoop max w source).Holds source' jobId := by
  have harray : ∀ source', ∀ jobId ∈ w.arrayOf source', jobId ∈
      ((if w.arrayOf source = [] then w.pendingBySource.erase source
        else w.pendingBySource).get? source').getD [] := by
    intro source'' jobId' hmem
    split_ifs with hnone
    · rw [get?_erase]
      split_ifs with heq
      · rw [heq, hnone] at hmem
        cases hmem
      · exact hmem
    · exact hmem
  refine holds_schedule ?_
  rcases h with hmem | ⟨l', hl', hjobs⟩
  · exact Or.inl (harray source' jobId hmem)
  · by_cases heq : source' = source
    · rw [heq, hl] at hl'
      cases hl'
      rw [heq, hempty] at hjobs
      cases hjobs
    · refine Or.inr ⟨l', ?_, ?_⟩
      · rw [get?_erase, if_neg heq]
        exact hl'
      · cases hown : l'.detached with
        | none =>
          simp only [jobsOf, hown] at hjobs ⊢
          exact harray source' jobId hjobs
        | some => simpa only [jobsOf, hown] using hjobs

theorem Kept.of_holds (h : Kept w) (hjournal : t.journal = w.journal)
    (hissued : t.issued = w.issued) (htail : ∀ a ∈ w.tail, a ∈ t.tail)
    (hholds : ∀ source jobId, w.stateOf jobId = some .queued →
      w.Holds source jobId → t.Holds source jobId ∨ CancelIssued t jobId) :
    Kept t := by
  intro jobId source hmem hstate
  have hold : w.stateOf jobId = some .queued := by
    simpa only [stateOf, hjournal] using hstate
  rcases h jobId source (hissued ▸ hmem) hold with hthere | ⟨a, ha, howner, hjobId⟩
  · exact hholds source jobId hold hthere
  · exact Or.inr ⟨a, htail a ha, howner, hjobId⟩

theorem Kept.resume {enqueuing : Option Enqueuing} {retried : List WorkspaceJobSnapshot}
    {job : WorkspaceJobSnapshot} (h : Kept w) :
    Kept (queueAndSchedule max
      { w with enqueuing := enqueuing, retried := retried } job) := by
  have hloops := onlyLoops_schedule max
    { w with
      enqueuing := enqueuing
      retried := retried
      pendingBySource := queueJob w.pendingBySource job
      issued := w.issued ++ [(job.jobId, job.sourceId)] }
  intro jobId source hmem hstate
  rw [queueAndSchedule, hloops.issued, mem_append] at hmem
  rw [queueAndSchedule, hloops.stateOf] at hstate
  rcases hmem with hold | hnew
  · rcases h jobId source hold hstate with hthere | ⟨a, ha, howner, hjobId⟩
    · refine Or.inl (holds_schedule (holds_of_kept hthere ?_ ?_))
      · intro source' jobId' hmem
        have harray : jobId' ∈ ((queueJob w.pendingBySource job).get? source').getD [] := by
          rw [arrayOf_queueJob]
          split_ifs
          · exact mem_append_left _ hmem
          · exact hmem
        exact harray
      · exact fun source' l hl => ⟨l, hl, rfl⟩
    · refine Or.inr ⟨a, ?_, howner, hjobId⟩
      rw [queueAndSchedule, hloops.tail]
      exact ha
  · cases mem_singleton.mp hnew
    refine Or.inl (holds_schedule (Or.inl ?_))
    have harray : job.jobId ∈ ((queueJob w.pendingBySource job).get? job.sourceId).getD [] := by
      rw [arrayOf_queueJob]
      split_ifs with hnot
      · exact mem_append_right _ mem_cons_self
      · by_contra hmem
        exact hnot ⟨rfl, hmem⟩
    exact harray

theorem kept_commit {a : Append} {rest : List Append} {eventId : String}
    {snapshot : WorkspaceJobSnapshot} {journal : Journal} (h : Kept w) (hregistered : Registered w)
    (htail : w.tail = a :: rest) (happend :
      w.journal.appendSnapshotSerial a.input eventId = .ok (snapshot, journal)) :
    Kept ((w.written rest snapshot journal).notify a.owner snapshot) := by
  have ha : a ∈ w.tail := by
    rw [htail]
    exact mem_cons_self
  have hkeeps := notify_keeps (w.written rest snapshot journal) a.owner snapshot
  intro jobId source hmem hstate
  rw [hkeeps.issued] at hmem
  rw [stateOf, hkeeps.journal, ← stateOf, stateOf_written happend] at hstate
  -- a job of an array has its first snapshot
  have hother : jobId ≠ a.input.jobId := by
    rintro rfl
    rw [if_pos rfl] at hstate
    have hnone := hregistered.first a ha (some.inj hstate)
    have hcalled : a.input.jobId ∈ w.called := mem_append_right _ (List.mem_map_of_mem hmem)
    have hsome := hregistered.called_known _ hcalled
    rw [hnone] at hsome
    cases hsome
  rw [if_neg hother] at hstate
  rcases h jobId source hmem hstate with hthere | ⟨b, hb, howner, hjobId⟩
  · have hwritten : (w.written rest snapshot journal).Holds source jobId := hthere
    refine Or.inl ?_
    cases a.owner with
    | enqueue => exact hwritten
    | retry => exact hwritten
    | cancel => exact hwritten
    | report => exact hwritten
    | start => exact holds_loopWritten hwritten
    | settle => exact holds_loopWritten hwritten
  · rw [htail, mem_cons] at hb
    rcases hb with rfl | hb
    · exact absurd hjobId.symm hother
    · refine Or.inr ⟨b, ?_, howner, hjobId⟩
      rw [hkeeps.tail]
      exact hb

theorem kept_step {a : Action} (h : Kept w) (hcoherent : Coherent w) (hturn : Turn max w a t)
    (hsucceeds : Succeeds a) : Kept t := by
  have htail : ∀ {owner input}, ∀ a ∈ w.tail, a ∈ w.tail ++ [⟨owner, input⟩] :=
    fun _ ha => mem_append_left _ ha
  have hsame : ∀ {u : QueueState}, u.journal = w.journal → u.issued = w.issued →
      (∀ a ∈ w.tail, a ∈ u.tail) → u.pendingBySource = w.pendingBySource →
      u.activeBySource = w.activeBySource → Kept u := by
    intro u hjournal hissued htail hpending hactive
    refine h.of_holds hjournal hissued htail ?_
    intro source jobId _ hthere
    refine Or.inl (holds_of_kept hthere ?_ ?_)
    · simp only [arrayOf, hpending]
      exact fun _ _ hmem => hmem
    · rw [hactive]
      exact fun source l hl => ⟨l, hl, rfl⟩
  have hput : ∀ {u : QueueState} {source : String} {l : Loop} {pc : LoopPc},
      w.activeBySource.get? source = some l → u.journal = w.journal →
      u.issued = w.issued → (∀ a ∈ w.tail, a ∈ u.tail) → u.pendingBySource = w.pendingBySource →
      u.activeBySource = (w.putLoop source { l with pc := pc }).activeBySource → Kept u := by
    intro u source l pc hl hjournal hissued htail hpending hactive
    refine h.of_holds hjournal hissued htail ?_
    intro source' jobId _ hthere
    have hmoved : (w.putLoop source { l with pc := pc }).Holds source' jobId :=
      holds_putLoop hl hthere
    refine Or.inl (holds_of_kept hmoved ?_ ?_)
    · simp only [arrayOf, hpending]
      exact fun _ _ hmem => hmem
    · rw [hactive]
      exact fun source l hl => ⟨l, hl, rfl⟩
  cases hturn with
  | call => exact hsame rfl rfl (fun _ ha => ha) rfl rfl
  | refuse => exact hsame rfl rfl (fun _ ha => ha) rfl rfl
  | enqueue => exact hsame rfl rfl htail rfl rfl
  | enqueueResume => exact h.resume
  | retry => exact hsame rfl rfl htail rfl rfl
  | retryResume => exact h.resume
  | cancelNothing => exact h
  | @cancelQueued jobId _ job hjob =>
    have hloops := onlyLoops_dropPending w job.sourceId jobId
    refine h.of_holds hloops.journal hloops.issued ?_ ?_
    · intro a ha
      exact mem_append_left _ (hloops.tail.symm ▸ ha)
    · intro source jobId' _ hthere
      by_cases hsame : jobId' = jobId
      · refine Or.inr ⟨_, mem_append_right _ mem_cons_self, rfl, ?_⟩
        exact (Journal.jobId_of_getJob hjob).trans hsame.symm
      · exact Or.inl (holds_dropPending hsame hthere)
  | cancelActive =>
    exact hsame rfl rfl (fun _ ha => ha) rfl rfl
  | reportNothing => exact h
  | report => exact hsame rfl rfl htail rfl rfl
  | @loopLeave source _ l hl _ hjobs =>
    have hloops := onlyLoops_leaveLoop max w source
    -- the jobs of an array are known
    have hempty : w.jobsOf source l = [] := by
      cases hhead : w.jobsOf source l with
      | nil => rfl
      | cons jobId rest =>
        have hissued : (jobId, source) ∈ w.issued := by
          refine hcoherent.stored.home source jobId (Or.inr ⟨l, hl, ?_⟩)
          rw [hhead]
          exact mem_cons_self
        have hsome := hcoherent.registered.called_known jobId
          (mem_append_right _ (List.mem_map_of_mem hissued))
        rw [hjobs jobId rest hhead] at hsome
        cases hsome
    refine h.of_holds hloops.journal hloops.issued ?_ ?_
    · exact fun _ ha => hloops.tail.symm ▸ ha
    · exact fun _ _ _ hthere => Or.inl (holds_leaveLoop hl hempty hthere)
  | loopQueued hl => exact hput hl rfl rfl htail rfl rfl
  | loopSkip hl =>
    exact hput hl rfl rfl (fun _ ha => ha) rfl rfl
  | loopStart hl => exact hput hl rfl rfl (fun _ ha => ha) rfl rfl
  | executorKeeps ha hl => exact hput hl rfl rfl (fun _ ha => ha) rfl rfl
  | executorEnds _ hl => exact hput hl rfl rfl htail rfl rfl
  | @loopShift source jobId l hl hpc =>
    have hloops := onlyLoops_shiftJobs w source l
    obtain ⟨state, hstate, hne⟩ := hcoherent.begun source l jobId hl (by rw [hpc]; rfl)
    have hhead := hcoherent.stored.heads source l jobId hl (by rw [hpc]; rfl)
    refine h.of_holds hloops.journal hloops.issued ?_ ?_
    · exact fun _ ha => hloops.tail.symm ▸ ha
    · intro source' jobId' hqueued hthere
      refine Or.inl (holds_shiftJobs hl hhead ?_ hthere)
      rintro rfl
      rw [hqueued] at hstate
      cases hstate
      exact hne rfl
  | commit htail happend => exact kept_commit h hcoherent.registered htail happend
  | failsAlone => exact hsucceeds.elim
  | failsLeave => exact hsucceeds.elim
  | failsCaught => exact hsucceeds.elim

end Kept

theorem pending_foldl_queueJob {source : String} {jobs : List String} :
    ∀ (queued : List WorkspaceJobSnapshot) (pending : InsertionMap String (List String)),
      (queued.foldl queueJob pending).get? source = some jobs →
      (∃ job ∈ queued, job.sourceId = source) ∨ ∃ jobs', pending.get? source = some jobs'
  | [], pending, h => Or.inr ⟨jobs, h⟩
  | job :: queued, pending, h => by
    rw [foldl_cons] at h
    rcases pending_foldl_queueJob queued _ h with ⟨other, hother, rfl⟩ | ⟨jobs', hjobs'⟩
    · exact Or.inl ⟨other, mem_cons_of_mem job hother, rfl⟩
    · rcases pending_queueJob hjobs' with rfl | hold
      · exact Or.inl ⟨job, mem_cons_self, rfl⟩
      · exact Or.inr hold

theorem foldl_queueJob_keeps {source jobId : String} :
    ∀ (queued : List WorkspaceJobSnapshot) (pending : InsertionMap String (List String)),
      jobId ∈ (pending.get? source).getD [] →
      jobId ∈ ((queued.foldl queueJob pending).get? source).getD []
  | [], _, h => h
  | job :: queued, pending, h => by
    rw [foldl_cons]
    refine foldl_queueJob_keeps queued _ ?_
    rw [arrayOf_queueJob]
    split_ifs
    · exact mem_append_left _ h
    · exact h

theorem foldl_queueJob_puts {job : WorkspaceJobSnapshot} :
    ∀ (queued : List WorkspaceJobSnapshot) (pending : InsertionMap String (List String)),
      job ∈ queued →
      job.jobId ∈ ((queued.foldl queueJob pending).get? job.sourceId).getD []
  | [], _, h => by cases h
  | other :: queued, pending, h => by
    rw [foldl_cons]
    rcases mem_cons.mp h with rfl | hlater
    · refine foldl_queueJob_keeps queued _ ?_
      rw [arrayOf_queueJob]
      split_ifs with hnot
      · exact mem_append_right _ mem_cons_self
      · by_contra hmem
        exact hnot ⟨rfl, hmem⟩
    · exact foldl_queueJob_puts queued _ hlater

def Journal.Named (journal : Journal) : Prop := ∀ job ∈ journal.getCurrentJobs, job.sourceId ≠ ""

instance (journal : Journal) : Decidable journal.Named :=
  inferInstanceAs (Decidable (∀ job ∈ journal.getCurrentJobs, _))

/-- What holds in every state of a run in which no append fails. -/
structure Smooth (max : Nat) (w : QueueState) : Prop where
  coherent : Coherent w
  startedOnce : StartedOnce w
  named : Named w
  serial : Serial w
  room : Room max w
  kept : Kept w

theorem smooth_step {a : Action} (h : Smooth max w) (hturn : Turn max w a t)
    (hsucceeds : Succeeds a) : Smooth max t :=
  { coherent := coherent_step h.coherent hturn
    startedOnce := startedOnce_step h.startedOnce h.coherent hturn
    named := named_step h.named hturn hsucceeds
    serial := serial_step h.serial h.coherent.registered hturn hsucceeds
    room := room_step h.room h.named hturn hsucceeds
    kept := kept_step h.kept h.coherent hturn hsucceeds }

theorem smooth_initially {journal : Journal} (hnamed : journal.Named) :
    Smooth max <| QueueState.initialize max journal := by
  have hpending : ∀ source jobs,
      ((journal.getCurrentJobs.filter (fun job => job.state = .queued)).foldl
        queueJob empty).get? source = some jobs → source ≠ "" := by
    intro source jobs hjobs
    rcases pending_foldl_queueJob _ _ hjobs with ⟨job, hjob, rfl⟩ | ⟨jobs', hjobs'⟩
    · exact hnamed job (mem_filter.mp hjob).1
    · cases hjobs'
  have hloops : OnlyLoops _ <| QueueState.initialize max journal := onlyLoops_schedule max _
  constructor
  · exact coherent_initially max journal
  · exact startedOnce_initially max journal
  · refine Named.of_onlyLoops ?_ hloops ?_
    · refine ⟨?_, ?_, ?_, ?_, hpending⟩
      · intro request hrequest
        cases hrequest
      · intro a ha
        cases ha
      · intro jobId job hjob
        refine hnamed job (Journal.mem_getCurrentJobs.mpr ?_)
        rw [Journal.jobId_of_getJob hjob]
        exact hjob
      · intro job hjob
        cases hjob
    · intro source jobs hjobs
      rw [ QueueState.initialize, pending_schedule] at hjobs
      exact ⟨jobs, hjobs⟩
  · refine Serial.of_onlyLoops ?_ hloops
    refine ⟨?_, Nat.zero_le 1, ?_⟩
    · intro a ha
      cases ha
    · intro jobId hstate
      obtain ⟨job, hjob, hqueued⟩ := map_eq_some_iff.mp hstate
      have hid := Journal.jobId_of_getJob hjob
      have hmem : job ∈ journal.getCurrentJobs.filter (fun job => job.state = .queued) := by
        refine mem_filter.mpr ⟨?_, decide_eq_true hqueued⟩
        exact Journal.mem_getCurrentJobs.mpr (hid.symm ▸ hjob)
      refine List.mem_map.mpr ⟨(job.jobId, job.sourceId), ?_, hid⟩
      exact List.mem_map.mpr ⟨job, hmem, rfl⟩
  · exact room_schedule (Nat.zero_le max) hpending
  · intro jobId source hmem hstate
    rw [hloops.issued] at hmem
    obtain ⟨job, hjob, heq⟩ := List.mem_map.mp hmem
    cases heq
    exact Or.inl (holds_schedule (Or.inl (foldl_queueJob_puts _ _ hjob)))

def QueueState.executing (w : QueueState) : List (String × String) :=
  w.activeBySource.entries.filterMap (fun e =>
    match e.2.pc with
    | .executing jobId => some (jobId, e.1)
    | _ => none)

structure WellScheduled (max : Nat) (w : QueueState) : Prop where
  perSource : (w.executing.map Prod.snd).Nodup
  atMost : w.executing.length ≤ max
  ofSource : ∀ p ∈ w.executing, p ∈ w.issued
  once : (w.handed.map Prod.fst).Nodup
  noneLeft : w.activeBySource.size = 0 → ∀ jobId, w.stateOf jobId = some .queued →
    jobId ∈ w.resumable.map (fun job => job.jobId) ∨ CancelIssued w jobId

theorem executing_perSource (w : QueueState) : (w.executing.map Prod.snd).Nodup := by
  have hsub : ∀ entries : List (String × Loop), ((entries.filterMap (fun e =>
        match e.2.pc with
        | .executing jobId => some (jobId, e.1)
        | _ => none)).map Prod.snd).Sublist (entries.map Prod.fst) := by
    intro entries
    induction entries with
    | nil => exact List.Sublist.refl _
    | cons _ _ ih =>
      rw [filterMap_cons, map_cons]
      split
      · exact ih.cons _
      · next _ hp =>
        split at hp
        · cases hp
          exact ih.cons_cons _
        · cases hp
  exact w.activeBySource.keys_nodup.sublist (hsub w.activeBySource.entries)

theorem wellScheduled_of_smooth (h : Smooth max w) (hmax : 0 < max) : WellScheduled max w := by
  constructor
  · exact executing_perSource w
  · exact le_trans (length_filterMap_le _ _) h.room.fits
  · rintro ⟨jobId, source⟩ hmem
    obtain ⟨e, he, hp⟩ := mem_filterMap.mp hmem
    split at hp
    · next _ hpc =>
      cases hp
      have hl := (get?_eq_some_iff ..).mpr he
      exact h.coherent.issued_of_job hl (by rw [hpc]; rfl)
    · cases hp
  · exact h.startedOnce.once
  · intro hidle jobId hstate
    have hnone : ∀ source l, w.activeBySource.get? source ≠ some l := by
      intro source l hl
      have hmem := (get?_eq_some_iff ..).mp hl
      rw [eq_nil_of_length_eq_zero hidle] at hmem
      cases hmem
    rcases mem_append.mp (h.serial.shown jobId hstate) with hcall | hissued
    · exact Or.inl hcall
    · obtain ⟨⟨jobId', source⟩, hmem, rfl⟩ := List.mem_map.mp hissued
      rcases h.kept jobId' source hmem hstate with hthere | hcancel
      · rcases hthere with harray | ⟨l, hl, _⟩
        · -- the source of an array has its loop
          cases hjobs : w.pendingBySource.get? source with
          | none =>
            rw [arrayOf, hjobs] at harray
            cases harray
          | some jobs =>
            obtain ⟨l, hl⟩ := h.room.covered (by omega) source jobs hjobs
            exact absurd hl (hnone source l)
        · exact absurd hl (hnone source l)
      · exact Or.inr hcancel

def cancelsWhileLeaving : List Action :=
  enqueued "first" "a" ++ [.enqueueCall { mainRequest "second" with sourceId := "side" },
      .enqueueTurn "b" "t", .commit "b", .enqueueResume,
      .loopCheck "main" "t", .commit "1", .loopStart "main",
      .executorReturns "main" (.completed none)
        { cleanupSafe := none, cleanupRequired := none, cleanupReason := none } "t",
      .cancel "b" "t", .commit "2", .loopShift "main", .loopCheck "main" "t"]

/-- Nothing that was put into an array is shown as queued when no loop is
active. -/
def NothingStranded (w : QueueState) : Prop :=
  w.activeBySource.size = 0 → ∀ p ∈ w.issued, w.stateOf p.1 ≠ some .queued

instance (w : QueueState) : Decidable (NothingStranded w) :=
  inferInstanceAs (Decidable (_ → ∀ p ∈ w.issued, _))

end WorkspaceJobs
end StudioWeb
