import StudioWeb.WorkspaceJobs.QueueInvariants

/-!
# The calls of the queue when no append fails

The runs here are those in which no append fails and no source has an empty id;
`scheduleProcessing` takes an empty id for none.

* `Named`: no source has an empty id.
* `Serial`: one enqueue at a time awaits its append, and what is shown as queued
  was called for.
-/

namespace StudioWeb
namespace WorkspaceJobs

open List

variable {max : Nat} {w t : QueueState}

/-- No source has an empty id. -/
structure Named (w : QueueState) : Prop where
  waiting : ∀ request ∈ w.waiting, request.sourceId ≠ ""
  tail : ∀ a ∈ w.tail, a.input.sourceId ≠ ""
  journal : ∀ jobId job, w.journal.getJob jobId = some job → job.sourceId ≠ ""
  resumable : ∀ job ∈ w.resumable, job.sourceId ≠ ""
  pending : ∀ source jobs, w.pendingBySource.get? source = some jobs → source ≠ ""

/-- Every array in the map was in it before. -/
def PendingFrom (w t : QueueState) : Prop :=
  ∀ source jobs, t.pendingBySource.get? source = some jobs →
    ∃ jobs', w.pendingBySource.get? source = some jobs'

theorem pendingFrom_dropPending (w : QueueState) (source jobId : String) :
    PendingFrom w (w.dropPending source jobId) := by
  intro source' jobs' hjobs'
  unfold QueueState.dropPending at hjobs'
  split at hjobs'
  · exact ⟨jobs', hjobs'⟩
  · next jobs hjobs =>
    dsimp only at hjobs'
    by_cases heq : source' = source
    · exact ⟨jobs, heq ▸ hjobs⟩
    · split_ifs at hjobs'
      · rw [InsertionMap.get?_erase, if_neg heq] at hjobs'
        exact ⟨jobs', hjobs'⟩
      · rw [InsertionMap.get?_set, if_neg heq] at hjobs'
        exact ⟨jobs', hjobs'⟩

theorem pendingFrom_shiftJobs (w : QueueState) (source : String) (l : Loop) :
    PendingFrom w (shiftJobs w source l) := by
  intro source' jobs' hjobs'
  unfold shiftJobs at hjobs'
  split at hjobs'
  · exact ⟨jobs', hjobs'⟩
  · dsimp only at hjobs'
    split at hjobs'
    · exact ⟨jobs', hjobs'⟩
    · next jobs hjobs =>
      by_cases heq : source' = source
      · exact ⟨jobs, heq ▸ hjobs⟩
      · rw [InsertionMap.get?_set, if_neg heq] at hjobs'
        exact ⟨jobs', hjobs'⟩

theorem pending_schedule (max : Nat) (w : QueueState) :
    (scheduleProcessing max w).pendingBySource = w.pendingBySource := by
  refine scheduleProcessing_induct (fun t => t.pendingBySource = w.pendingBySource) ?_ max rfl
  intro t source ht _
  exact ht

theorem pendingFrom_leaveLoop (max : Nat) (w : QueueState) (source : String) :
    PendingFrom w (leaveLoop max w source) := by
  intro source' jobs' hjobs'
  rw [leaveLoop, pending_schedule] at hjobs'
  dsimp only at hjobs'
  split_ifs at hjobs'
  · rw [InsertionMap.get?_erase] at hjobs'
    split_ifs at hjobs'
    exact ⟨jobs', hjobs'⟩
  · exact ⟨jobs', hjobs'⟩

theorem pending_queueJob {pending : InsertionMap String (List String)} {job : WorkspaceJobSnapshot}
    {source : String} {jobs : List String} (h : (queueJob pending job).get? source = some jobs) :
    source = job.sourceId ∨ ∃ jobs', pending.get? source = some jobs' := by
  unfold queueJob at h
  dsimp only at h
  by_cases hmem : ((pending.get? job.sourceId).getD []).contains job.jobId
  · rw [if_pos hmem] at h
    exact Or.inr ⟨jobs, h⟩
  · rw [if_neg hmem, InsertionMap.get?_set] at h
    split_ifs at h with heq
    · exact Or.inl heq
    · exact Or.inr ⟨jobs, h⟩

theorem Named.of_kept (h : Named w) (hwaiting : ∀ request ∈ t.waiting, request ∈ w.waiting)
    (htail : ∀ a ∈ t.tail, a ∈ w.tail) (hjournal : t.journal = w.journal)
    (hresumable : ∀ job ∈ t.resumable, job ∈ w.resumable) (hpending : PendingFrom w t) :
    Named t := by
  constructor
  · exact fun request hmem => h.waiting request (hwaiting request hmem)
  · exact fun a ha => h.tail a (htail a ha)
  · rw [hjournal]
    exact h.journal
  · exact fun job hjob => h.resumable job (hresumable job hjob)
  · intro source jobs hjobs
    obtain ⟨jobs', hjobs'⟩ := hpending source jobs hjobs
    exact h.pending source jobs' hjobs'

theorem Named.of_onlyLoops (h : Named w) (hloops : OnlyLoops w t) (hpending : PendingFrom w t) :
    Named t := by
  refine h.of_kept ?_ ?_ hloops.journal ?_ hpending
  · rw [hloops.waiting]
    exact fun _ hmem => hmem
  · rw [hloops.tail]
    exact fun _ hmem => hmem
  · rw [QueueState.resumable, QueueState.resumable, hloops.enqueuing, hloops.retried]
    exact fun _ hmem => hmem

theorem Named.issue {owner : Owner} {input : SnapshotInput} (h : Named w)
    (hinput : input.sourceId ≠ "") : Named (w.issue owner input) := by
  refine { h with tail := ?_ }
  intro a ha
  rcases mem_append.mp ha with ha | ha
  · exact h.tail a ha
  · rw [mem_singleton.mp ha]
    exact hinput

theorem Named.resume {enqueuing : Option Enqueuing} {retried : List WorkspaceJobSnapshot}
    {job : WorkspaceJobSnapshot} (h : Named w) (hjob : job ∈ w.resumable)
    (hsub : ∀ other ∈ ({ w with enqueuing := enqueuing, retried := retried } :
      QueueState).resumable, other ∈ w.resumable) :
    Named (queueAndSchedule max
      { w with enqueuing := enqueuing, retried := retried } job) := by
  have hqueued : Named
      { w with
        enqueuing := enqueuing
        retried := retried
        pendingBySource := queueJob w.pendingBySource job
        issued := w.issued ++ [(job.jobId, job.sourceId)] } := by
    constructor
    · exact h.waiting
    · exact h.tail
    · exact h.journal
    · exact fun other hother => h.resumable other (hsub other hother)
    · intro source jobs hjobs
      rcases pending_queueJob hjobs with rfl | ⟨jobs', hjobs'⟩
      · exact h.resumable job hjob
      · exact h.pending source jobs' hjobs'
  refine hqueued.of_onlyLoops (onlyLoops_schedule max _) ?_
  intro source jobs hjobs
  rw [queueAndSchedule, pending_schedule] at hjobs
  exact ⟨jobs, hjobs⟩

theorem named_commit {a : Append} {rest : List Append} {eventId : String}
    {snapshot : WorkspaceJobSnapshot} {journal : Journal} (h : Named w) (htail : w.tail = a :: rest)
    (happend :
      w.journal.appendSnapshotSerial a.input eventId = .ok (snapshot, journal)) :
    Named ((w.written rest snapshot journal).notify a.owner snapshot) := by
  have ha : a ∈ w.tail := by
    rw [htail]
    exact mem_cons_self
  have hrest : ∀ b ∈ rest, b ∈ w.tail := by
    intro b hb
    rw [htail]
    exact mem_cons_of_mem a hb
  have hsnapshot : snapshot.sourceId ≠ "" := by
    rw [(state_of_append happend).2.2]
    exact sanitizeString_ne_empty (h.tail a ha)
  have hwritten : Named (w.written rest snapshot journal) := by
    refine { h with tail := fun b hb => h.tail b (hrest b hb), journal := ?_ }
    intro jobId job hjob
    have hget : journal.getJob jobId = some job := hjob
    rw [getJob_of_append happend] at hget
    split_ifs at hget
    · cases hget
      exact hsnapshot
    · exact h.journal jobId job hget
  have hloop : ∀ source pc, Named ((w.written rest snapshot journal).loopWritten source pc) := by
    intro source pc
    refine hwritten.of_onlyLoops (onlyLoops_loopWritten _ _ _) ?_
    unfold QueueState.loopWritten
    split <;> exact fun source jobs hjobs => ⟨jobs, hjobs⟩
  cases howner : a.owner with
  | enqueue =>
    refine { hwritten with resumable := ?_ }
    intro job hjob
    rcases mem_cons.mp hjob with rfl | hold
    · exact hsnapshot
    · exact h.resumable job ((retried_sublist_resumable w).subset hold)
  | retry =>
    refine { hwritten with resumable := ?_ }
    intro job hjob
    have hmem : job ∈ appendedJob w.enqueuing ++ (w.retried ++ [snapshot]) := hjob
    rw [← append_assoc, mem_append, mem_singleton] at hmem
    rcases hmem with hold | rfl
    · exact h.resumable job hold
    · exact hsnapshot
  | cancel => exact hwritten
  | report => exact hwritten
  | start source => exact hloop source _
  | settle source => exact hloop source _

/-- The turns of these runs: no append fails, and no source has an empty id. -/
def Succeeds : Action → Prop
  | .enqueueCall request => request.sourceId ≠ ""
  | .appendFails _ _ => False
  | _ => True

instance (a : Action) : Decidable (Succeeds a) := by
  cases a <;> unfold Succeeds <;> infer_instance

theorem named_step {a : Action} (h : Named w) (hturn : Turn max w a t) (hsucceeds : Succeeds a) :
    Named t := by
  have hsame : ∀ {u : QueueState}, u.journal = w.journal →
      u.waiting = w.waiting → u.tail = w.tail → u.enqueuing = w.enqueuing →
      u.retried = w.retried → u.pendingBySource = w.pendingBySource → Named u := by
    intro u hjournal hwaiting htail henqueuing hretried hpending
    refine h.of_kept (fun _ hr => hwaiting ▸ hr) (fun _ ha => htail ▸ ha) hjournal
      ?_ (fun source jobs hjobs => ⟨jobs, hpending ▸ hjobs⟩)
    rw [QueueState.resumable, QueueState.resumable, henqueuing, hretried]
    exact fun _ hmem => hmem
  cases hturn with
  | call =>
    refine { h with waiting := ?_ }
    intro other hother
    rcases mem_append.mp hother with hold | hnew
    · exact h.waiting other hold
    · rw [mem_singleton.mp hnew]
      exact hsucceeds
  | @refuse _ _ request _ hwaiting =>
    refine { h with waiting := ?_ }
    intro other hother
    refine h.waiting other ?_
    rw [hwaiting]
    exact mem_cons_of_mem request hother
  | @enqueue jobId now request _ _ hwaiting =>
    have hissue : Named (w.issue .enqueue (queuedInput request.scope jobId now)) := by
      refine h.issue ?_
      refine h.waiting request ?_
      rw [hwaiting]
      exact mem_cons_self
    refine hissue.of_kept ?_ (fun _ ha => ha) rfl ?_ (fun source jobs hjobs => ⟨jobs, hjobs⟩)
    · intro other hother
      have hmem : other ∈ w.waiting := by
        rw [hwaiting]
        exact mem_cons_of_mem request hother
      exact hmem
    · intro job hjob
      exact (retried_sublist_resumable _).subset hjob
  | @enqueueResume _ hjob =>
    refine h.resume ?_ ?_
    · simp [QueueState.resumable, appendedJob, hjob]
    · intro other hother
      exact (retried_sublist_resumable w).subset hother
  | retry hjob => exact h.issue (h.journal _ _ hjob)
  | @retryResume _ hjob =>
    refine h.resume ((retried_sublist_resumable w).subset hjob) ?_
    intro other hother
    rcases mem_append.mp hother with hold | hfilter
    · exact mem_append_left _ hold
    · exact mem_append_right _ (mem_filter.mp hfilter).1
  | cancelNothing => exact h
  | cancelQueued hjob =>
    refine Named.issue ?_ (h.journal _ _ hjob)
    exact h.of_onlyLoops (onlyLoops_dropPending _ _ _) (pendingFrom_dropPending _ _ _)
  | cancelActive => exact hsame rfl rfl rfl rfl rfl rfl
  | reportNothing => exact h
  | report hcurrent => exact h.issue (h.journal _ _ hcurrent)
  | loopLeave =>
    exact h.of_onlyLoops (onlyLoops_leaveLoop _ _ _) (pendingFrom_leaveLoop _ _ _)
  | loopQueued _ _ _ hcurrent =>
    refine Named.issue ?_ (h.journal _ _ hcurrent)
    exact hsame rfl rfl rfl rfl rfl rfl
  | loopSkip => exact hsame rfl rfl rfl rfl rfl rfl
  | loopStart => exact hsame rfl rfl rfl rfl rfl rfl
  | executorKeeps => exact hsame rfl rfl rfl rfl rfl rfl
  | executorEnds _ _ _ hlatest hinput =>
    refine Named.issue ?_ ?_
    · exact hsame rfl rfl rfl rfl rfl rfl
    · rw [hinput.sourceId]
      exact h.journal _ _ hlatest
  | loopShift =>
    exact h.of_onlyLoops (onlyLoops_shiftJobs _ _ _) (pendingFrom_shiftJobs _ _ _)
  | commit htail happend => exact named_commit h htail happend
  | failsAlone => exact hsucceeds.elim
  | failsLeave => exact hsucceeds.elim
  | failsCaught => exact hsucceeds.elim

/-- One enqueue at a time awaits its append, and a job that is shown as queued was
put there by a call of this process, or read when it began. -/
structure Serial (w : QueueState) : Prop where
  appending : ∀ a ∈ w.tail, a.owner = .enqueue → w.enqueuing = some .appending
  single : (w.tail.filter (fun a => a.owner = .enqueue)).length ≤ 1
  shown : ∀ jobId, w.stateOf jobId = some .queued → jobId ∈ w.called

theorem Serial.of_kept (h : Serial w) (hjournal : t.journal = w.journal) (htail : t.tail = w.tail)
    (henqueuing : t.enqueuing = w.enqueuing) (hcalled : ∀ jobId ∈ w.called, jobId ∈ t.called) :
    Serial t := by
  constructor
  · rw [htail, henqueuing]
    exact h.appending
  · rw [htail]
    exact h.single
  · intro jobId hstate
    refine hcalled jobId (h.shown jobId ?_)
    simpa only [QueueState.stateOf, hjournal] using hstate

theorem Serial.of_onlyLoops (h : Serial w) (hloops : OnlyLoops w t) : Serial t := by
  refine h.of_kept hloops.journal hloops.tail hloops.enqueuing ?_
  simp only [QueueState.called, QueueState.resumable, hloops.enqueuing,
    hloops.retried, hloops.issued]
  exact fun _ hmem => hmem

theorem Serial.issue {owner : Owner} {input : SnapshotInput} (h : Serial w)
    (howner : owner ≠ .enqueue) : Serial (w.issue owner input) := by
  constructor
  · intro a ha henqueue
    rcases mem_append.mp ha with ha | ha
    · exact h.appending a ha henqueue
    · rw [mem_singleton.mp ha] at henqueue
      exact absurd henqueue howner
  · simpa [QueueState.issue, filter_append, howner] using h.single
  · exact h.shown

theorem Serial.none_enqueuing (h : Serial w) (henqueuing : w.enqueuing ≠ some .appending) :
    w.tail.filter (fun a => a.owner = .enqueue) = [] := by
  rw [filter_eq_nil_iff]
  intro a ha howner
  exact henqueuing (h.appending a ha (of_decide_eq_true howner))

theorem Serial.resume {enqueuing : Option Enqueuing} {retried : List WorkspaceJobSnapshot}
    {job : WorkspaceJobSnapshot} (h : Serial w)
    (henqueuing : enqueuing = w.enqueuing ∨ w.enqueuing ≠ some .appending)
    (hcalled : ∀ other ∈ w.resumable, other.jobId = job.jobId ∨
      other ∈ ({ w with enqueuing := enqueuing, retried := retried } :
        QueueState).resumable) :
    Serial (queueAndSchedule max
      { w with enqueuing := enqueuing, retried := retried } job) := by
  have hqueued : Serial
      { w with
        enqueuing := enqueuing
        retried := retried
        pendingBySource := queueJob w.pendingBySource job
        issued := w.issued ++ [(job.jobId, job.sourceId)] } := by
    constructor
    · intro a ha howner
      rcases henqueuing with rfl | hnot
      · exact h.appending a ha howner
      · exact absurd (h.appending a ha howner) hnot
    · exact h.single
    · intro jobId hstate
      have hold := h.shown jobId hstate
      rcases mem_append.mp hold with hresumable | hissued
      · obtain ⟨other, hother, rfl⟩ := mem_map.mp hresumable
        rcases hcalled other hother with hsame | hstill
        · refine mem_append_right _ ?_
          rw [map_append]
          refine mem_append_right _ ?_
          rw [map_singleton, mem_singleton]
          exact hsame
        · exact mem_append_left _ (mem_map_of_mem hstill)
      · refine mem_append_right _ ?_
        rw [map_append]
        exact mem_append_left _ hissued
  exact hqueued.of_onlyLoops (onlyLoops_schedule max _)

theorem serial_commit {a : Append} {rest : List Append} {eventId : String}
    {snapshot : WorkspaceJobSnapshot} {journal : Journal} (h : Serial w)
    (hregistered : Registered w) (htail : w.tail = a :: rest) (happend :
      w.journal.appendSnapshotSerial a.input eventId = .ok (snapshot, journal)) :
    Serial ((w.written rest snapshot journal).notify a.owner snapshot) := by
  have ha : a ∈ w.tail := by
    rw [htail]
    exact mem_cons_self
  have hrest : ∀ b ∈ rest, b ∈ w.tail := by
    intro b hb
    rw [htail]
    exact mem_cons_of_mem a hb
  have hjobId := (state_of_append happend).1
  have hsingle : (rest.filter (fun b => b.owner = .enqueue)).length ≤ 1 := by
    refine le_trans (List.Sublist.length_le (List.Sublist.filter _ ?_)) h.single
    rw [htail]
    exact sublist_cons_self a rest
  -- a job that was shown as queued before
  have hold : ∀ jobId, jobId ≠ a.input.jobId ∨ a.input.state ≠ .queued →
      (w.written rest snapshot journal).stateOf jobId = some .queued → jobId ∈ w.called := by
    intro jobId hnot hstate
    rw [stateOf_written happend] at hstate
    split_ifs at hstate with hsame
    · rcases hnot with hne | hne
      · exact absurd hsame hne
      · exact absurd (Option.some.inj hstate) hne
    · exact h.shown jobId hstate
  have hwrites := hregistered.writes a ha
  have hwritten : a.input.state ≠ .queued → Serial (w.written rest snapshot journal) := by
    intro hne
    exact ⟨fun b hb => h.appending b (hrest b hb), hsingle,
      fun jobId hstate => hold jobId (Or.inr hne) hstate⟩
  have hdecide : ∀ {P : WorkspaceJobState → Prop}, P a.input.state →
      ¬ P .queued → a.input.state ≠ .queued := by
    intro P hP hnot heq
    exact hnot (heq ▸ hP)
  cases howner : a.owner with
  | enqueue =>
    have hnone : rest.filter (fun b => b.owner = .enqueue) = [] := by
      have hone := h.single
      rw [htail, filter_cons, if_pos (by simpa using howner), length_cons] at hone
      exact eq_nil_of_length_eq_zero (by omega)
    rw [filter_eq_nil_iff] at hnone
    refine ⟨?_, hsingle, ?_⟩
    · intro b hb henqueue
      exact absurd (by simpa using henqueue) (hnone b hb)
    · intro jobId hstate
      by_cases hsame : jobId = a.input.jobId
      · refine mem_append_left _ ?_
        rw [hsame, ← hjobId]
        exact mem_map_of_mem mem_cons_self
      · have hcalled := hold jobId (Or.inl hsame) hstate
        rcases mem_append.mp hcalled with hresumable | hissued
        · obtain ⟨job, hjob, rfl⟩ := mem_map.mp hresumable
          have henqueuing := h.appending a ha howner
          rw [QueueState.resumable, henqueuing] at hjob
          exact mem_append_left _ (mem_map_of_mem (mem_append_right _ hjob))
        · exact mem_append_right _ hissued
  | retry =>
    refine ⟨fun b hb => h.appending b (hrest b hb), hsingle, ?_⟩
    intro jobId hstate
    have hsub : ∀ job, job ∈ w.resumable ∨ job = snapshot → job ∈
        ((w.written rest snapshot journal).notify .retry snapshot).resumable := by
      intro job hjob
      have hassoc : ((w.written rest snapshot journal).notify .retry
          snapshot).resumable = w.resumable ++ [snapshot] := by
        rw [QueueState.resumable, QueueState.resumable, append_assoc]
        rfl
      rw [hassoc, mem_append, mem_singleton]
      exact hjob
    by_cases hsame : jobId = a.input.jobId
    · refine mem_append_left _ ?_
      rw [hsame, ← hjobId]
      exact mem_map_of_mem (hsub snapshot (Or.inr rfl))
    · have hcalled := hold jobId (Or.inl hsame) hstate
      rcases mem_append.mp hcalled with hresumable | hissued
      · obtain ⟨job, hjob, rfl⟩ := mem_map.mp hresumable
        exact mem_append_left _ (mem_map_of_mem (hsub job (Or.inl hjob)))
      · exact mem_append_right _ hissued
  | cancel =>
    rw [howner] at hwrites
    exact hwritten (hdecide hwrites WorkspaceJobState.noConfusion)
  | report =>
    rw [howner] at hwrites
    exact hwritten (hdecide hwrites WorkspaceJobState.noConfusion)
  | start =>
    rw [howner] at hwrites
    exact (hwritten (hdecide hwrites WorkspaceJobState.noConfusion)).of_onlyLoops
      (onlyLoops_loopWritten _ _ _)
  | settle =>
    rw [howner] at hwrites
    exact (hwritten hwrites).of_onlyLoops (onlyLoops_loopWritten _ _ _)

theorem serial_step {a : Action} (h : Serial w) (hregistered : Registered w)
    (hturn : Turn max w a t) (hsucceeds : Succeeds a) : Serial t := by
  have hsame : ∀ {u : QueueState}, u.journal = w.journal → u.tail = w.tail →
      u.enqueuing = w.enqueuing → u.retried = w.retried → u.issued = w.issued → Serial u := by
    intro u hjournal htail henqueuing hretried hissued
    refine h.of_kept hjournal htail henqueuing ?_
    simp only [QueueState.called, QueueState.resumable, henqueuing, hretried, hissued]
    exact fun _ hmem => hmem
  cases hturn with
  | call => exact hsame rfl rfl rfl rfl rfl
  | refuse => exact hsame rfl rfl rfl rfl rfl
  | enqueue henqueuing =>
    have hnone := h.none_enqueuing (by simp [henqueuing])
    refine ⟨fun _ _ _ => rfl, ?_, ?_⟩
    · rw [filter_append, hnone]
      exact le_refl 1
    · intro jobId hstate
      have hcalled := h.shown jobId hstate
      rw [QueueState.called, QueueState.resumable, henqueuing] at hcalled
      exact hcalled
  | @enqueueResume _ hjob =>
    refine h.resume (Or.inr ?_) ?_
    · rw [hjob]
      intro heq
      cases heq
    · intro other hother
      rw [QueueState.resumable, hjob] at hother
      rcases mem_cons.mp hother with rfl | hold
      · exact Or.inl rfl
      · exact Or.inr hold
  | retry => exact h.issue Owner.noConfusion
  | @retryResume job =>
    refine h.resume (Or.inl rfl) ?_
    intro other hother
    by_cases hsameId : other.jobId = job.jobId
    · exact Or.inl hsameId
    · rcases mem_append.mp hother with hold | hold
      · exact Or.inr (mem_append_left _ hold)
      · exact Or.inr (mem_append_right _ (mem_filter.mpr ⟨hold, decide_eq_true hsameId⟩))
  | cancelNothing => exact h
  | cancelQueued =>
    exact (h.of_onlyLoops (onlyLoops_dropPending _ _ _)).issue Owner.noConfusion
  | cancelActive => exact hsame rfl rfl rfl rfl rfl
  | reportNothing => exact h
  | report => exact h.issue Owner.noConfusion
  | loopLeave => exact h.of_onlyLoops (onlyLoops_leaveLoop _ _ _)
  | loopQueued =>
    exact Serial.issue (hsame rfl rfl rfl rfl rfl) Owner.noConfusion
  | loopSkip => exact hsame rfl rfl rfl rfl rfl
  | loopStart => exact hsame rfl rfl rfl rfl rfl
  | executorKeeps => exact hsame rfl rfl rfl rfl rfl
  | executorEnds =>
    exact Serial.issue (hsame rfl rfl rfl rfl rfl) Owner.noConfusion
  | loopShift => exact h.of_onlyLoops (onlyLoops_shiftJobs _ _ _)
  | commit htail happend => exact serial_commit h hregistered htail happend
  | failsAlone => exact hsucceeds.elim
  | failsLeave => exact hsucceeds.elim
  | failsCaught => exact hsucceeds.elim

end WorkspaceJobs
end StudioWeb
