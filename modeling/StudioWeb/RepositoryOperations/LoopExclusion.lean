import StudioWeb.RepositoryOperations.RepositoryTurns
import Mathlib.Data.List.Perm.Subperm

/-!
# One loop for a repository, and no more loops than allowed

A loop is started for a repository that is not active, and makes it active until its
`finally`.  While a run goes on, its operation is at the head of the array.
-/

namespace StudioWeb
namespace RepositoryOperations

open ServedQueue List Function QueueState

variable {max : Nat} {s t : QueueState} {a : Action}

section Loops

structure LoopsOk (max : Nat) (s : QueueState) : Prop where
  nodup : s.activeRepositories.Nodup
  length_le : s.activeRepositories.length ≤ max
  lt : ∀ i l, s.loops i = some l → i < s.loopCount
  active : ∀ i l, s.loops i = some l → l.repositoryId ∈ s.activeRepositories
  unique : ∀ i j l l', s.loops i = some l → s.loops j = some l' →
    l.repositoryId = l'.repositoryId → i = j

theorem LoopsOk.of_same (h : LoopsOk max s)
    (hactive : t.activeRepositories = s.activeRepositories) (hloops : t.loops = s.loops)
    (hcount : t.loopCount = s.loopCount) : LoopsOk max t := by
  constructor
  · rw [hactive]
    exact h.nodup
  · rw [hactive]
    exact h.length_le
  · rw [hloops, hcount]
    exact h.lt
  · rw [hactive, hloops]
    exact h.active
  · rw [hloops]
    exact h.unique

variable {repositoryId : String} {l : RepositoryLoop}

theorem loops_goto_cases {i j : Nat} {pc : LoopPc}
    (hl : (s.goto i repositoryId pc).loops j = some l) :
    (j = i ∧ l = ⟨repositoryId, pc⟩) ∨ (j ≠ i ∧ s.loops j = some l) := by
  simp only [goto, setLoop, update_apply] at hl
  split at hl
  · next hj =>
    cases hl
    exact Or.inl ⟨hj, rfl⟩
  · next hj => exact Or.inr ⟨hj, hl⟩

theorem LoopsOk.goto {i : Nat} (h : LoopsOk max s) (hl : s.loops i = some l) (pc : LoopPc) :
    LoopsOk max (s.goto i l.repositoryId pc) := by
  have hold : ∀ j l', (s.goto i l.repositoryId pc).loops j = some l' →
      ∃ l₀, s.loops j = some l₀ ∧ l₀.repositoryId = l'.repositoryId := by
    intro j l' hl'
    rcases loops_goto_cases hl' with ⟨rfl, rfl⟩ | ⟨_, hsame⟩
    · exact ⟨l, hl, rfl⟩
    · exact ⟨l', hsame, rfl⟩
  constructor
  · exact h.nodup
  · exact h.length_le
  · intro j l' hl'
    obtain ⟨l₀, hl₀, _⟩ := hold j l' hl'
    exact h.lt j l₀ hl₀
  · intro j l' hl'
    obtain ⟨l₀, hl₀, hrepository⟩ := hold j l' hl'
    rw [← hrepository]
    exact h.active j l₀ hl₀
  · intro j k l' l'' hl' hl'' hsame
    obtain ⟨l₀, hl₀, hrepository⟩ := hold j l' hl'
    obtain ⟨l₁, hl₁, hrepository'⟩ := hold k l'' hl''
    exact h.unique j k l₀ l₁ hl₀ hl₁ (by rw [hrepository, hrepository', hsame])

theorem loops_startLoop_cases {j : Nat} (hl : (s.startLoop repositoryId).loops j = some l) :
    (j = s.loopCount ∧ l = ⟨repositoryId, .checking⟩) ∨ s.loops j = some l := by
  simp only [QueueState.startLoop, update_apply] at hl
  split at hl
  · next hj =>
    cases hl
    exact Or.inl ⟨hj, rfl⟩
  · exact Or.inr hl

theorem LoopsOk.startLoop (h : LoopsOk max s) (hlength : s.activeRepositories.length < max)
    (hidle : repositoryId ∉ s.activeRepositories) :
    LoopsOk max (s.startLoop repositoryId) := by
  constructor
  · refine nodup_append.mpr ⟨h.nodup, nodup_singleton _, ?_⟩
    intro r hr r' hr' hsame
    rw [mem_singleton.mp hr'] at hsame
    exact hidle (hsame ▸ hr)
  · simp only [QueueState.startLoop, length_append, length_singleton]
    omega
  · intro j l hl
    change j < s.loopCount + 1
    rcases loops_startLoop_cases hl with ⟨rfl, _⟩ | hold
    · omega
    · have hlt := h.lt j l hold
      omega
  · intro j l hl
    rcases loops_startLoop_cases hl with ⟨_, rfl⟩ | hold
    · exact mem_append_right _ (mem_singleton_self _)
    · exact mem_append_left _ (h.active j l hold)
  · intro j k l l' hl hl' hsame
    rcases loops_startLoop_cases hl with ⟨rfl, rfl⟩ | hold
    · rcases loops_startLoop_cases hl' with ⟨rfl, _⟩ | hold'
      · rfl
      · have hactive := h.active k l' hold'
        rw [← hsame] at hactive
        exact absurd hactive hidle
    · rcases loops_startLoop_cases hl' with ⟨rfl, rfl⟩ | hold'
      · have hactive := h.active j l hold
        rw [hsame] at hactive
        exact absurd hactive hidle
      · exact h.unique j k l l' hold hold' hsame

theorem LoopsOk.scheduleProcessing (h : LoopsOk max s) :
    LoopsOk max (s.scheduleProcessing max) :=
  scheduleProcessing_induction h fun _ _ h => h.startLoop

/-- The queue after a loop's `finally`, before it schedules. -/
def QueueState.leave (s : QueueState) (i : Nat) (repositoryId : String) : QueueState :=
  let s := s.setLoop i none
  let s := { s with activeRepositories := s.activeRepositories.erase repositoryId }
  if (s.pending repositoryId).isEmpty then
    { s with pendingByRepository := s.pendingByRepository.erase repositoryId }
  else s

theorem endLoop_eq (s : QueueState) (i : Nat) (repositoryId : String) :
    s.endLoop max i repositoryId =
      (s.leave i repositoryId).scheduleProcessing max := by
  rfl

section Leave

variable {i : Nat} {repositoryId : String}

theorem leave_loops : (s.leave i repositoryId).loops = Function.update s.loops i none := by
  unfold leave
  dsimp only
  split <;> rfl

theorem leave_active :
    (s.leave i repositoryId).activeRepositories = s.activeRepositories.erase repositoryId := by
  unfold leave
  dsimp only
  split <;> rfl

theorem leave_loopCount : (s.leave i repositoryId).loopCount = s.loopCount := by
  unfold leave
  dsimp only
  split <;> rfl

@[simp] theorem leave_journal : (s.leave i repositoryId).journal = s.journal := by
  unfold leave
  dsimp only
  split <;> rfl

@[simp] theorem leave_history : (s.leave i repositoryId).history = s.history := by
  unfold leave
  dsimp only
  split <;> rfl

@[simp] theorem leave_enqueuing : (s.leave i repositoryId).enqueuing = s.enqueuing := by
  unfold leave
  dsimp only
  split <;> rfl

@[simp] theorem leave_returned : (s.leave i repositoryId).returned = s.returned := by
  unfold leave
  dsimp only
  split <;> rfl

@[simp] theorem leave_pending (r : String) : (s.leave i repositoryId).pending r = s.pending r := by
  unfold leave
  dsimp only
  split
  · next hempty =>
    have hnil : s.pending repositoryId = [] := isEmpty_iff.mp hempty
    unfold pending
    rw [InsertionMap.get?_erase]
    split
    · next hr =>
      rw [hr]
      exact hnil.symm
    · rfl
  · rfl

theorem loops_leave_cases {j : Nat} {l : RepositoryLoop}
    (hl : (s.leave i repositoryId).loops j = some l) : j ≠ i ∧ s.loops j = some l := by
  rw [leave_loops, update_apply] at hl
  split at hl
  · cases hl
  · next hj => exact ⟨hj, hl⟩

end Leave

theorem loopsOk_leave {i : Nat} {l : RepositoryLoop} (h : LoopsOk max s)
    (hl : s.loops i = some l) : LoopsOk max (s.leave i l.repositoryId) := by
  constructor
  · rw [leave_active]
    exact h.nodup.erase _
  · rw [leave_active]
    exact Nat.le_trans length_erase_le h.length_le
  · intro j l' hl'
    rw [leave_loopCount]
    exact h.lt j l' (loops_leave_cases hl').2
  · intro j l' hl'
    obtain ⟨hne, hold⟩ := loops_leave_cases hl'
    rw [leave_active]
    refine (mem_erase_of_ne ?_).mpr (h.active j l' hold)
    exact fun hsame => hne (h.unique j i l' l hold hl hsame)
  · intro j k l' l'' hl' hl''
    exact h.unique j k l' l'' (loops_leave_cases hl').2 (loops_leave_cases hl'').2

theorem LoopsOk.endLoop {i : Nat} {l : RepositoryLoop} (h : LoopsOk max s)
    (hl : s.loops i = some l) :
    LoopsOk max
      (s.endLoop max i l.repositoryId) := by
  rw [endLoop_eq]
  exact (loopsOk_leave h hl).scheduleProcessing

/-- **Every turn keeps the loops apart.** -/
theorem LoopsOk.turn (h : LoopsOk max s) (hturn : Turn max s a t) : LoopsOk max t := by
  cases hturn with
  | same => exact h
  | enqueue => exact h.of_same rfl rfl rfl
  | refused => exact h.of_same rfl rfl rfl
  | reused => exact h.of_same rfl rfl rfl
  | holds => exact h.of_same rfl rfl rfl
  | enqueueEnds => exact h.of_same rfl rfl rfl
  | enqueueCommits => exact h.of_same rfl rfl rfl
  | enqueueReturns _ queued repositoryId =>
    have hpush : LoopsOk max ({ s with enqueuing := none }.push repositoryId .accepted queued) :=
      h.of_same rfl rfl rfl
    exact hpush.scheduleProcessing.of_same rfl rfl rfl
  | requeues operation _ repositoryId =>
    have hpush : LoopsOk max (s.push repositoryId .requeued operation) := h.of_same rfl rfl rfl
    exact hpush.scheduleProcessing
  | ends _ _ hl => exact h.endLoop hl
  | runs _ l next _ _ hl =>
    have hnote : LoopsOk max
        (s.note l.repositoryId (.run next.operationId)) := h.of_same rfl rfl rfl
    exact hnote.goto hl _
  | shifts _ l _ _ hl =>
    have hset : LoopsOk max (s.setPending l.repositoryId (s.pending l.repositoryId).tail) :=
      h.of_same rfl rfl rfl
    exact hset.goto hl _
  | commits _ _ _ _ _ journal _ hl =>
    have hjournal : LoopsOk max { s with journal := journal } := h.of_same rfl rfl rfl
    exact hjournal.goto hl _
  | aborts _ _ hl => exact h.goto hl _
  | starts _ l run hl =>
    have hnote : LoopsOk max
        (s.note l.repositoryId (.started run.operation.operationId)) := h.of_same rfl rfl rfl
    exact hnote.goto hl _
  | disowns _ _ _ _ hl => exact h.goto hl _
  | settles _ _ _ _ _ hl => exact h.goto hl _

end Loops

def QueueState.Executing (s : QueueState) (i : Nat) (repositoryId operationId : String) : Prop :=
  ∃ run, s.loops i = some ⟨repositoryId, .executing run⟩ ∧ run.operation.operationId = operationId

/-- At most one operation of a repository executes at once, and operations of at most the
configured number of repositories do. -/
structure Exclusive (maxConcurrentRepositories : Nat) (s : QueueState) : Prop where
  one : ∀ i j repositoryId a b, s.Executing i repositoryId a → s.Executing j repositoryId b →
    i = j ∧ a = b
  bounded : ∀ repositories : List String, repositories.Nodup →
    (∀ r ∈ repositories, ∃ i a, s.Executing i r a) →
    repositories.length ≤ maxConcurrentRepositories

theorem exclusive_of_loopsOk (h : LoopsOk max s) :
    Exclusive max s := by
  constructor
  · rintro i j repositoryId a b ⟨run, hi, rfl⟩ ⟨run', hj, rfl⟩
    have hij := h.unique i j _ _ hi hj rfl
    subst hij
    rw [hi] at hj
    cases hj
    exact ⟨rfl, rfl⟩
  · intro repositories hnodup hexecuting
    have hsubset : repositories ⊆ s.activeRepositories := by
      intro r hr
      obtain ⟨i, a, run, hi, _⟩ := hexecuting r hr
      exact h.active i _ hi
    exact Nat.le_trans (subperm_of_subset hnodup hsubset).length_le h.length_le

end RepositoryOperations
end StudioWeb
