import StudioWeb.WorkspaceJobs.QueueTurns

/-!
# The arrays and the loops of the queue

What the parts of a turn that move loops leave as it is, and what they do to the
arrays.
-/

namespace StudioWeb
namespace WorkspaceJobs

open QueueState

variable {max : Nat} {w t : QueueState}

/-- Only the arrays, the loops and the count of controllers differ. -/
structure OnlyLoops (w t : QueueState) : Prop where
  journal : t.journal = w.journal
  tail : t.tail = w.tail
  waiting : t.waiting = w.waiting
  enqueuing : t.enqueuing = w.enqueuing
  retried : t.retried = w.retried
  aborted : t.aborted = w.aborted
  handed : t.handed = w.handed
  history : t.history = w.history
  issued : t.issued = w.issued

theorem OnlyLoops.refl (w : QueueState) : OnlyLoops w w := by
  constructor <;> rfl

theorem OnlyLoops.trans {u : QueueState} (h : OnlyLoops w t) (h' : OnlyLoops t u) :
    OnlyLoops w u := by
  constructor
  · exact h'.journal.trans h.journal
  · exact h'.tail.trans h.tail
  · exact h'.waiting.trans h.waiting
  · exact h'.enqueuing.trans h.enqueuing
  · exact h'.retried.trans h.retried
  · exact h'.aborted.trans h.aborted
  · exact h'.handed.trans h.handed
  · exact h'.history.trans h.history
  · exact h'.issued.trans h.issued

theorem OnlyLoops.stateOf (h : OnlyLoops w t) (jobId : String) :
    t.stateOf jobId = w.stateOf jobId := by
  simp only [QueueState.stateOf, h.journal]

/-- **The induction of scheduling**: what activating a source without a loop
preserves, `scheduleProcessing` preserves. -/
theorem scheduleProcessing_induct (P : QueueState → Prop)
    (hactivate : ∀ w source, P w → w.activeBySource.get? source = none → P (w.activate source))
    (max : Nat) (hw : P w) : P (scheduleProcessing max w) := by
  have hrounds : ∀ rounds w, P w → P (scheduleRounds max rounds w) := by
    intro rounds
    induction rounds with
    | zero => exact fun w hw => hw
    | succ _ ih =>
      intro w hw
      unfold scheduleRounds
      split_ifs
      · split
        · exact hw
        · next source hnext =>
          split_ifs
          · exact hw
          · refine ih _ (hactivate w source hw ?_)
            have hnone := List.find?_some hnext
            simpa using hnone
      · exact hw
  exact hrounds max w hw

theorem onlyLoops_schedule (max : Nat) (w : QueueState) :
    OnlyLoops w (scheduleProcessing max w) := by
  refine scheduleProcessing_induct (OnlyLoops w) ?_ max (.refl w)
  intro t source ht _
  exact ht.trans (by constructor <;> rfl)

theorem onlyLoops_dropPending (w : QueueState) (source jobId : String) :
    OnlyLoops w (w.dropPending source jobId) := by
  unfold dropPending detach
  split
  · exact .refl w
  · split <;> constructor <;> rfl

theorem onlyLoops_leaveLoop (max : Nat) (w : QueueState) (source : String) :
    OnlyLoops w (leaveLoop max w source) := by
  refine OnlyLoops.trans ?_ (onlyLoops_schedule max _)
  constructor <;> rfl

theorem onlyLoops_shiftJobs (w : QueueState) (source : String) (l : Loop) :
    OnlyLoops w (shiftJobs w source l) := by
  unfold shiftJobs
  split <;> constructor <;> rfl

theorem onlyLoops_loopWritten (w : QueueState) (source : String) (pc : LoopPc) :
    OnlyLoops w (w.loopWritten source pc) := by
  unfold loopWritten
  split
  · exact .refl w
  · constructor <;> rfl

/-- Code that goes on after its append leaves the rest as it is. -/
structure NotifyKeeps (w t : QueueState) : Prop where
  journal : t.journal = w.journal
  tail : t.tail = w.tail
  aborted : t.aborted = w.aborted
  handed : t.handed = w.handed
  history : t.history = w.history
  issued : t.issued = w.issued

theorem notify_keeps (w : QueueState) (owner : Owner) (snapshot : WorkspaceJobSnapshot) :
    NotifyKeeps w (w.notify owner snapshot) := by
  have hloops : ∀ source pc, NotifyKeeps w (w.loopWritten source pc) := by
    intro source pc
    have h := onlyLoops_loopWritten w source pc
    exact ⟨h.journal, h.tail, h.aborted, h.handed, h.history, h.issued⟩
  cases owner with
  | enqueue => constructor <;> rfl
  | retry => constructor <;> rfl
  | cancel => constructor <;> rfl
  | report => constructor <;> rfl
  | start source => exact hloops source _
  | settle source => exact hloops source _

namespace QueueState

def arrayOf (w : QueueState) (source : String) : List String :=
  (w.pendingBySource.get? source).getD []

def droppedLoop (w : QueueState) (source source' : String) (l : Loop) : Loop :=
  if source' = source ∧ (w.pendingBySource.get? source).isSome then
    { l with detached := some (w.jobsOf source l) }
  else
    l

end QueueState

variable (w : QueueState)

@[simp] theorem pc_droppedLoop (source source' : String) (l : Loop) :
    (w.droppedLoop source source' l).pc = l.pc := by
  unfold QueueState.droppedLoop
  split <;> rfl

variable (source jobId source' : String)

theorem get?_dropPending :
    (w.dropPending source jobId).activeBySource.get? source' =
      (w.activeBySource.get? source').map (w.droppedLoop source source') := by
  unfold dropPending detach QueueState.droppedLoop
  split
  · next hnone => simp [hnone]
  · next jobs hjobs =>
    have hjobsOf : ∀ l : Loop, w.jobsOf source l = l.detached.getD jobs := by
      intro l
      cases hdetached : l.detached <;> simp [jobsOf, hdetached, hjobs]
    by_cases heq : source' = source
    · subst heq
      split
      · next hnone => simp [hnone]
      · next _ hl => simp [putLoop, hjobs, hl, hjobsOf]
    · split
      · simp [heq]
      · simp [putLoop, InsertionMap.get?_set, heq]

theorem arrayOf_dropPending :
    (w.dropPending source jobId).arrayOf source' =
      if source' = source then
        (w.arrayOf source).filter (fun candidate => candidate ≠ jobId)
      else
        w.arrayOf source' := by
  unfold dropPending QueueState.arrayOf
  split
  · next hnone =>
    split_ifs with heq
    · rw [heq, hnone]
      rfl
    · rfl
  · next _ hjobs =>
    dsimp only
    rw [hjobs]
    split_ifs with hnext heq heq
    · rw [InsertionMap.get?_erase, if_pos heq]
      exact hnext.symm
    · rw [InsertionMap.get?_erase, if_neg heq]
    · rw [InsertionMap.get?_set, if_pos heq]
      rfl
    · rw [InsertionMap.get?_set, if_neg heq]

/-- A loop goes on with the jobs it had. -/
theorem jobsOf_dropPending (l : Loop) :
    (w.dropPending source jobId).jobsOf source' (w.droppedLoop source source' l) =
      w.jobsOf source' l := by
  unfold QueueState.droppedLoop
  split_ifs with h
  · rw [h.1]
    rfl
  · cases hdetached : l.detached with
    | some => simp only [jobsOf, hdetached]
    | none =>
      simp only [jobsOf, hdetached]
      have harray := arrayOf_dropPending w source jobId source'
      by_cases heq : source' = source
      · have hnone : w.pendingBySource.get? source = none := by
          simpa [heq] using h
        simp [dropPending, hnone]
      · rw [if_neg heq] at harray
        exact harray

/-- What a loop is after it took the head off its array. -/
def Loop.shifted (l : Loop) : Loop :=
  { l with pc := .checking, detached := l.detached.map List.tail }

variable (w : QueueState) (source source' : String) (l : Loop)

theorem get?_shiftJobs :
    (shiftJobs w source l).activeBySource.get? source' =
      if source' = source then some l.shifted
      else w.activeBySource.get? source' := by
  unfold shiftJobs Loop.shifted
  split <;> next hdetached => simp [putLoop, InsertionMap.get?_set, hdetached]

theorem arrayOf_shiftJobs :
    (shiftJobs w source l).arrayOf source' =
      if source' = source ∧ l.detached = none then (w.arrayOf source).tail
      else w.arrayOf source' := by
  unfold shiftJobs QueueState.arrayOf
  split
  · next _ hdetached => simp [putLoop, hdetached]
  · next hdetached =>
    simp only [hdetached, and_true]
    split
    · next hnone =>
      split_ifs with heq
      · rw [heq, hnone]
        rfl
      · rfl
    · next _ hjobs =>
      rw [InsertionMap.get?_set, hjobs]
      split_ifs <;> rfl

/-- The loop goes on with the rest of its jobs. -/
theorem jobsOf_shifted (w : QueueState) (source : String) (l : Loop) :
    (shiftJobs w source l).jobsOf source l.shifted = (w.jobsOf source l).tail := by
  have harray := arrayOf_shiftJobs w source source l
  cases hdetached : l.detached with
  | some => simp [jobsOf, Loop.shifted, hdetached]
  | none =>
    rw [if_pos ⟨rfl, hdetached⟩] at harray
    simp only [jobsOf, Loop.shifted, hdetached, Option.map_none]
    exact harray

/-- Any other loop goes on with its jobs. -/
theorem jobsOf_shiftJobs (w : QueueState) {source source' : String} (l l' : Loop)
    (hne : source' ≠ source) : (shiftJobs w source l).jobsOf source' l' = w.jobsOf source' l' := by
  have harray := arrayOf_shiftJobs w source source' l
  rw [if_neg (fun h => hne h.1)] at harray
  cases hdetached : l'.detached with
  | some => simp only [jobsOf, hdetached]
  | none =>
    simp only [jobsOf, hdetached]
    exact harray

end WorkspaceJobs
end StudioWeb
