import StudioWeb.RepositoryOperations.RepositoryOrder

/-!
# A queue with work has a loop
-/

namespace StudioWeb
namespace RepositoryOperations

open List QueueState InsertionMap

variable {max : Nat} {s t : QueueState} {a : Action}

/-- A repository with an array has a loop, or every place is taken. -/
def Full (max : Nat) (s : QueueState) : Prop :=
  ∀ r ∈ s.pendingByRepository.keys, r ∈ s.activeRepositories ∨ max ≤ s.activeRepositories.length

/-- Every active repository has its loop, and an array is under a name. -/
structure Manned (s : QueueState) : Prop where
  looping : ∀ r ∈ s.activeRepositories, ∃ i l, s.loops i = some l ∧ l.repositoryId = r
  named : "" ∉ s.pendingByRepository.keys

structure Attended (max : Nat) (s : QueueState) : Prop where
  manned : Manned s
  full : Full max s

/-- The repositories that wait for a loop. -/
def QueueState.unserved (s : QueueState) : List String :=
  s.pendingByRepository.keys.filter fun r => r ∉ s.activeRepositories

theorem unserved_startLoop {r : String} (hkey : r ∈ s.pendingByRepository.keys)
    (hidle : r ∉ s.activeRepositories) : (s.startLoop r).unserved.length < s.unserved.length := by
  have heq : (s.startLoop r).unserved = s.unserved.filter fun r' => r' ≠ r := by
    simp only [unserved, QueueState.startLoop, filter_filter]
    refine filter_congr ?_
    intro r' _
    simp only [mem_append, mem_singleton, not_or, Bool.decide_and]
    exact Bool.and_comm _ _
  rw [heq]
  refine length_filter_lt_length_iff_exists.mpr ⟨r, ?_, by simp⟩
  exact mem_filter.mpr ⟨hkey, by simpa using hidle⟩

theorem full_schedule (fuel : Nat) (hnamed : "" ∉ s.pendingByRepository.keys)
    (hfuel : s.unserved.length ≤ fuel) :
    Full max (schedule max fuel s) := by
  induction fuel generalizing s with
  | zero =>
    intro r hr
    left
    by_contra hidle
    change r ∉ s.activeRepositories at hidle
    have hmem : r ∈ s.unserved := mem_filter.mpr ⟨hr, by simpa using hidle⟩
    rw [length_eq_zero_iff.mp (Nat.le_zero.mp hfuel)] at hmem
    cases hmem
  | succ _ ih =>
    unfold schedule
    split
    · split
      · next hfind =>
        intro r hr
        left
        simpa using find?_eq_none.mp hfind r hr
      · next r hfind =>
        have hkey := mem_of_find?_eq_some hfind
        have hidle : r ∉ s.activeRepositories := by simpa using find?_some hfind
        split
        · next hempty => exact absurd (hempty ▸ hkey) hnamed
        · have hless := unserved_startLoop hkey hidle
          exact ih hnamed (by omega)
    · next hlength => exact fun r _ => Or.inr (Nat.le_of_not_lt hlength)

theorem full_scheduleProcessing (h : Manned s) :
    Full max (s.scheduleProcessing max) := by
  refine full_schedule _ h.named ?_
  refine (length_filter_le _ _).trans (Nat.le_of_eq ?_)
  exact length_map _

theorem Manned.startLoop {r : String} (hloops : LoopsOk max s)
    (h : Manned s) : Manned (s.startLoop r) := by
  refine ⟨?_, h.named⟩
  intro r' hr'
  rcases mem_append.mp hr' with hold | hnew
  · obtain ⟨i, l, hl, hr⟩ := h.looping r' hold
    have hlt := hloops.lt i l hl
    have hne : i ≠ s.loopCount := by omega
    exact ⟨i, l, by simp [QueueState.startLoop, hne, hl], hr⟩
  · exact ⟨s.loopCount, ⟨r, .checking⟩, by simp [QueueState.startLoop],
      (mem_singleton.mp hnew).symm⟩

theorem attended_scheduleProcessing (hloops : LoopsOk max s) (h : Manned s) :
    Attended max
      (s.scheduleProcessing max) := by
  have hboth : LoopsOk max (s.scheduleProcessing max) ∧ Manned (s.scheduleProcessing max) := by
    refine scheduleProcessing_induction (motive := fun u => LoopsOk max u ∧ Manned u) ⟨hloops, h⟩ ?_
    rintro u r ⟨hu, hmanned⟩ hlength hidle
    exact ⟨hu.startLoop hlength hidle, hmanned.startLoop hu⟩
  exact ⟨hboth.2, full_scheduleProcessing h⟩

theorem Manned.push {repositoryId : String} {entry : String → ServedQueue.Entry String}
    {operation : StudioOperationSnapshot} (h : Manned s)
    (hrepository : requireRepositoryId operation = .ok repositoryId) :
    Manned (s.push repositoryId entry operation) := by
  have hne : repositoryId ≠ "" := by
    unfold requireRepositoryId requireValue at hrepository
    split at hrepository
    · cases hrepository
    · split at hrepository
      · cases hrepository
      · next _ htext =>
        cases hrepository
        simpa using (Option.filter_eq_some_iff.mp htext).2
  refine ⟨h.looping, ?_⟩
  change "" ∉ (s.pendingByRepository.set repositoryId _).keys
  rw [keys_set]
  split
  · exact h.named
  · simp only [mem_append, mem_singleton, not_or]
    exact ⟨h.named, hne.symm⟩

theorem Manned.leave {i : Nat} {l : RepositoryLoop} (hloops : LoopsOk max s)
    (h : Manned s) (hl : s.loops i = some l) : Manned (s.leave i l.repositoryId) := by
  constructor
  · intro r hr
    rw [leave_active] at hr
    obtain ⟨hne, hold⟩ := (hloops.nodup.mem_erase_iff).mp hr
    obtain ⟨j, l', hl', hr'⟩ := h.looping r hold
    refine ⟨j, l', ?_, hr'⟩
    have hji : j ≠ i := by
      rintro rfl
      rw [hl] at hl'
      cases hl'
      exact hne hr'.symm
    rw [leave_loops, Function.update_of_ne hji, hl']
  · unfold QueueState.leave
    dsimp only
    split
    · intro hmem
      obtain ⟨b, hb⟩ := (mem_keys_iff _ _).mp hmem
      rw [get?_erase] at hb
      split at hb
      · cases hb
      · exact h.named ((mem_keys_iff _ _).mpr ⟨b, hb⟩)
    · exact h.named

theorem Attended.goto {i : Nat} {l : RepositoryLoop} {u : QueueState}
    (h : Attended max s) (hl : s.loops i = some l) (pc : LoopPc)
    (hloops : u.loops = s.loops) (hactive : u.activeRepositories = s.activeRepositories)
    (hkeys : u.pendingByRepository.keys = s.pendingByRepository.keys) :
    Attended max (u.goto i l.repositoryId pc) := by
  refine ⟨⟨?_, ?_⟩, ?_⟩
  · intro r hr
    change r ∈ u.activeRepositories at hr
    rw [hactive] at hr
    obtain ⟨j, l', hl', hr'⟩ := h.manned.looping r hr
    by_cases hj : j = i
    · subst hj
      rw [hl] at hl'
      cases hl'
      exact ⟨j, ⟨l.repositoryId, pc⟩, by simp [QueueState.goto, QueueState.setLoop], hr'⟩
    · exact ⟨j, l', by simp [QueueState.goto, QueueState.setLoop, hj, hloops, hl'], hr'⟩
  · change "" ∉ u.pendingByRepository.keys
    rw [hkeys]
    exact h.manned.named
  · intro r hr
    change r ∈ u.pendingByRepository.keys at hr
    rw [hkeys] at hr
    change r ∈ u.activeRepositories ∨ _ ≤ u.activeRepositories.length
    rw [hactive]
    exact h.full r hr

theorem Attended.of_same (h : Attended max s) (hloops : t.loops = s.loops)
    (hactive : t.activeRepositories = s.activeRepositories)
    (hpending : t.pendingByRepository = s.pendingByRepository) :
    Attended max t := by
  refine ⟨⟨?_, ?_⟩, ?_⟩
  · rw [hactive, hloops]
    exact h.manned.looping
  · rw [hpending]
    exact h.manned.named
  · intro r hr
    rw [hpending] at hr
    rw [hactive]
    exact h.full r hr

/-- **Every turn keeps the repositories attended.** -/
theorem Attended.turn (hinv : QueueInv max s) (h : Attended max s) (hturn : Turn max s a t) :
    Attended max t := by
  cases hturn with
  | same => exact h
  | enqueue => exact h.of_same rfl rfl rfl
  | refused => exact h.of_same rfl rfl rfl
  | reused => exact h.of_same rfl rfl rfl
  | holds => exact h.of_same rfl rfl rfl
  | enqueueEnds => exact h.of_same rfl rfl rfl
  | enqueueCommits => exact h.of_same rfl rfl rfl
  | enqueueReturns _ queued repositoryId _ hrepository =>
    have hfree : Manned { s with enqueuing := none } := ⟨h.manned.looping, h.manned.named⟩
    have hloops : LoopsOk max ({ s with enqueuing := none }.push repositoryId .accepted queued) :=
      hinv.loops.of_same rfl rfl rfl
    exact (attended_scheduleProcessing hloops (hfree.push hrepository)).of_same rfl rfl rfl
  | requeues operation _ repositoryId _ _ hrepository =>
    have hloops : LoopsOk max
        (s.push repositoryId .requeued operation) := hinv.loops.of_same rfl rfl rfl
    exact attended_scheduleProcessing hloops (h.manned.push hrepository)
  | ends _ _ hl =>
    rw [endLoop_eq]
    exact attended_scheduleProcessing (loopsOk_leave hinv.loops hl) (h.manned.leave hinv.loops hl)
  | runs _ _ _ _ _ hl => exact h.goto hl _ rfl rfl rfl
  | shifts i l run _ hl hpc =>
    obtain ⟨rest, hpending⟩ := hinv.heads i l run hl (by rw [hpc]; rfl)
    refine h.goto hl _ rfl rfl ?_
    change (s.pendingByRepository.set _ _).keys = _
    rw [keys_set, if_pos]
    rw [mem_keys_iff]
    unfold QueueState.pending at hpending
    cases hget : s.pendingByRepository.get? l.repositoryId with
    | none =>
      rw [hget] at hpending
      cases hpending
    | some pending => exact ⟨pending, rfl⟩
  | commits _ _ _ _ _ _ _ hl => exact h.goto hl _ rfl rfl rfl
  | aborts _ _ hl => exact h.goto hl _ rfl rfl rfl
  | starts _ _ _ hl => exact h.goto hl _ rfl rfl rfl
  | disowns _ _ _ _ hl => exact h.goto hl _ rfl rfl rfl
  | settles _ _ _ _ _ hl => exact h.goto hl _ rfl rfl rfl

section Runs

open LabelledRuns

theorem manned_foldlM (operations : List StudioOperationSnapshot) (h : Manned s)
    (hfold : operations.foldlM
      (fun (s : QueueState) operation => s.queueOperation .accepted operation) s = .ok t) :
    Manned t := by
  induction operations generalizing s with
  | nil =>
    cases hfold
    exact h
  | cons o _ ih =>
    rw [foldlM_cons] at hfold
    cases hrepository : requireRepositoryId o with
    | error =>
      rw [queueOperation_of_error hrepository] at hfold
      cases hfold
    | ok =>
      rw [queueOperation_of_ok hrepository] at hfold
      exact ih (h.push hrepository) hfold

theorem attended_ofReplayed {journal : OperationJournal}
    (h : ofReplayed max journal = .ok s) :
    Attended max s := by
  obtain ⟨u, hfold, hu, rfl⟩ := exists_replayed h
  have hempty : Manned (ofJournal journal) := by
    constructor
    · intro r hr
      cases hr
    · simp [ofJournal, InsertionMap.keys, empty]
  exact attended_scheduleProcessing hu.loops (manned_foldlM _ hempty hfold)

theorem attended_of_run {journal : OperationJournal} {start : QueueState} {actions : List Action}
    (hstart : ofReplayed max journal = .ok start)
    (hrun : runActions (step max) start actions = some s) :
    Attended max s := by
  have hpres : ∀ u a v, QueueInv max u ∧ Attended max u → u.step max a = some v →
      QueueInv max v ∧ Attended max v := by
    rintro u a v ⟨hinv, hattended⟩ hstep
    have hturn := turn_of_step hstep
    exact ⟨hinv.turn hturn, hattended.turn hinv hturn⟩
  exact (runActions_preserves hpres ⟨queueInv_ofReplayed hstart, attended_ofReplayed hstart⟩ hrun).2

/-- **Where an operation is in an array, a loop is at work.** -/
theorem exists_loop_of_pending {r : String} {o : StudioOperationSnapshot}
    (hplaces : 0 < max) (h : Attended max s)
    (hpending : o ∈ s.pending r) : ∃ i l, s.loops i = some l := by
  have hkey : r ∈ s.pendingByRepository.keys := by
    rw [mem_keys_iff]
    unfold QueueState.pending at hpending
    cases hget : s.pendingByRepository.get? r with
    | none =>
      rw [hget] at hpending
      cases hpending
    | some pending => exact ⟨pending, rfl⟩
  obtain ⟨r', hr'⟩ : ∃ r', r' ∈ s.activeRepositories := by
    rcases h.full r hkey with hactive | hfull
    · exact ⟨r, hactive⟩
    · exact exists_mem_of_length_pos (by omega)
  obtain ⟨i, l, hl, _⟩ := h.manned.looping r' hr'
  exact ⟨i, l, hl⟩

end Runs

end RepositoryOperations
end StudioWeb
