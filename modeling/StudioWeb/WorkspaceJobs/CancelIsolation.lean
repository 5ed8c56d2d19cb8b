import StudioWeb.WorkspaceJobs.QueueInvariants

/-!
# Which jobs a cancel reaches

A loop registers one controller for its source and hands the signal of it to
every job it runs.  `cancel` of a job that has begun aborts the controller that
is registered for the source at that moment, whichever job the loop is at.

`Isolated` says that no signal handed to a job was aborted by the cancel of
another one.
-/

namespace StudioWeb
namespace WorkspaceJobs

open LabelledRuns

variable {max : Nat} {w t : QueueState}

/-- A signal that was handed to a job is aborted by the cancel of that job
only. -/
def Isolated (w : QueueState) : Prop := ∀ p ∈ w.aborted, ∀ q ∈ w.handed, q.2 = p.1 → q.1 = p.2

instance (w : QueueState) : Decidable (Isolated w) :=
  inferInstanceAs (Decidable (∀ p ∈ w.aborted, ∀ q ∈ w.handed, q.2 = p.1 → q.1 = p.2))

/-- The condition on a turn.  A cancel that reaches a loop: the loop has run no
other job.  A loop that starts a job: it was not cancelled for another one. -/
def CancelsAlone (w : QueueState) : Action → Prop
  | .cancel jobId _ =>
    ∀ job l, w.journal.getJob jobId = some job →
      job.state.isTerminal = false → job.state ≠ .queued →
      w.activeBySource.get? job.sourceId = some l →
      ∀ q ∈ w.handed, q.2 = l.controller → q.1 = jobId
  | .loopStart source =>
    ∀ l jobId, w.activeBySource.get? source = some l → l.pc = .started jobId →
      ∀ p ∈ w.aborted, p.1 = l.controller → p.2 = jobId
  | _ => True

section

variable (h : Isolated w)
include h

theorem Isolated.of_same (haborted : t.aborted = w.aborted)
    (hhanded : t.handed = w.handed) : Isolated t := by
  unfold Isolated
  rw [haborted, hhanded]
  exact h

theorem Isolated.of_onlyLoops (hloops : OnlyLoops w t) : Isolated t :=
  h.of_same hloops.aborted hloops.handed

omit h in
theorem cancelsAlone_of_endsExecution {a : Action} {source : String} (ha : a.endsExecution source) :
    CancelsAlone w a := by
  cases a <;> first | exact trivial | exact ha.elim

theorem isolated_abort_iff {controller : Nat} {jobId : String} :
    Isolated { w with aborted := w.aborted ++ [(controller, jobId)] } ↔
    ∀ q ∈ w.handed, q.2 = controller → q.1 = jobId := by
  constructor
  · intro ht q hq hcontroller
    exact ht (controller, jobId) (by simp) q hq hcontroller
  · intro halone p hp q hq hcontroller
    rcases List.mem_append.mp hp with hp | hp
    · exact h p hp q hq hcontroller
    · rw [List.mem_singleton] at hp
      subst hp
      exact halone q hq hcontroller

theorem isolated_hand_iff {controller : Nat} {jobId : String} {history : List Entry}
    {activeBySource : InsertionMap String Loop} :
    Isolated
        { w with
          activeBySource := activeBySource
          handed := w.handed ++ [(jobId, controller)]
          history := history }
      ↔
    ∀ p ∈ w.aborted, p.1 = controller → p.2 = jobId := by
  constructor
  · intro ht p hp hcontroller
    exact (ht p hp (jobId, controller) (by simp) hcontroller.symm).symm
  · intro halone p hp q hq hcontroller
    rcases List.mem_append.mp hq with hq | hq
    · exact h p hp q hq hcontroller
    · rw [List.mem_singleton] at hq
      subst hq
      exact (halone p hp hcontroller.symm).symm

/-- **One turn keeps the signals isolated exactly when it cancels alone.** -/
theorem isolated_step_iff {a : Action} (hturn : Turn max w a t) :
    Isolated t ↔ CancelsAlone w a := by
  have hkeep : ∀ {u : QueueState} {P : Prop}, P → Isolated u → (Isolated u ↔ P) :=
    fun hP hu => ⟨fun _ => hP, fun _ => hu⟩
  cases hturn with
  | call => exact hkeep trivial (h.of_same rfl rfl)
  | refuse => exact hkeep trivial (h.of_same rfl rfl)
  | enqueue => exact hkeep trivial (h.of_same rfl rfl)
  | enqueueResume =>
    exact hkeep trivial (h.of_same (onlyLoops_schedule max _).aborted
      (onlyLoops_schedule max _).handed)
  | retry => exact hkeep trivial (h.of_same rfl rfl)
  | retryResume =>
    exact hkeep trivial (h.of_same (onlyLoops_schedule max _).aborted
      (onlyLoops_schedule max _).handed)
  | cancelNothing hnothing =>
    refine hkeep ?_ h
    intro job l hjob hterminal hstate hl
    rcases hnothing job hjob with hended | ⟨_, hnone⟩
    · rw [hended] at hterminal
      cases hterminal
    · rw [hnone] at hl
      cases hl
  | cancelQueued hjob hstate =>
    refine hkeep ?_ ((h.of_onlyLoops (onlyLoops_dropPending _ _ _)).of_same rfl rfl)
    intro job' l hjob' hterminal hnot hl
    rw [hjob] at hjob'
    cases hjob'
    exact absurd hstate hnot
  | cancelActive hjob hterminal hstate hl =>
    rw [isolated_abort_iff h]
    constructor
    · intro halone job' l' hjob' hterminal' hstate' hl'
      rw [hjob] at hjob'
      cases hjob'
      rw [hl] at hl'
      cases hl'
      exact halone
    · intro halone
      exact halone _ _ hjob hterminal hstate hl
  | reportNothing => exact hkeep trivial h
  | report => exact hkeep trivial (h.of_same rfl rfl)
  | loopLeave =>
    exact hkeep trivial (h.of_onlyLoops (onlyLoops_leaveLoop _ _ _))
  | loopQueued =>
    exact hkeep trivial (h.of_same rfl rfl)
  | loopSkip =>
    exact hkeep trivial (h.of_same rfl rfl)
  | loopStart hl hpc =>
    refine (isolated_hand_iff h).trans ?_
    constructor
    · intro halone l' jobId' hl' hpc'
      rw [hl] at hl'
      cases hl'
      rw [hpc] at hpc'
      cases hpc'
      exact halone
    · intro halone
      exact halone _ _ hl hpc
  | executorKeeps ha =>
    exact hkeep (cancelsAlone_of_endsExecution ha) (h.of_same rfl rfl)
  | executorEnds ha =>
    exact hkeep (cancelsAlone_of_endsExecution ha) (h.of_same rfl rfl)
  | loopShift =>
    exact hkeep trivial (h.of_onlyLoops (onlyLoops_shiftJobs _ _ _))
  | commit =>
    exact hkeep trivial (h.of_same (notify_keeps _ _ _).aborted (notify_keeps _ _ _).handed)
  | failsAlone =>
    exact hkeep trivial (h.of_same rfl rfl)
  | failsLeave =>
    exact hkeep trivial (h.of_same (onlyLoops_leaveLoop max _ _).aborted
      (onlyLoops_leaveLoop max _ _).handed)
  | failsCaught =>
    exact hkeep trivial (h.of_same rfl rfl)

/-- **The signals stay isolated exactly in the runs whose turns cancel alone.** -/
theorem isolated_iff_cancelsAlone_from (actions : List Action) :
    EveryStep (step max) (fun _ _ t => Isolated t) w actions ↔
    EveryStep (step max) (fun w a _ => CancelsAlone w a) w actions := by
  induction actions generalizing w with
  | nil => exact Iff.rfl
  | cons _ _ ih =>
    constructor
    · intro hevery t hstep
      obtain ⟨ht, hrest⟩ := hevery t hstep
      exact ⟨(isolated_step_iff h (turn_of_step hstep)).mp ht, (ih ht).mp hrest⟩
    · intro hevery t hstep
      obtain ⟨halone, hrest⟩ := hevery t hstep
      have ht := (isolated_step_iff h (turn_of_step hstep)).mpr halone
      exact ⟨ht, (ih ht).mpr hrest⟩

end

theorem isolated_iff_cancelsAlone (max : Nat) (journal : Journal) (actions : List Action) :
    EveryStep (step max) (fun _ _ t => Isolated t) ( QueueState.initialize max journal) actions ↔
    EveryStep (step max) (fun w a _ => CancelsAlone w a)
        ( QueueState.initialize max journal) actions := by
  refine isolated_iff_cancelsAlone_from ?_ actions
  have hnone : ( QueueState.initialize max journal).aborted = [] :=
    (onlyLoops_schedule max _).aborted
  intro p hp
  rw [hnone] at hp
  cases hp

/-- The first job awaits its confirmation, the second one runs, and the first one
is cancelled. -/
def cancelsConfirmation : List Action :=
  enqueued "first" "a" ++ enqueued "second" "b" ++
    [.loopCheck "main" "t", .commit "1", .loopStart "main", .executorReturns "main"
        (.awaitingConfirmation
          { code := "confirmation-required"
            message := "confirm"
            sourceId := none
            retryable := false })
        { cleanupSafe := none, cleanupRequired := none, cleanupReason := none } "t",
      .commit "2", .loopShift "main",
      .loopCheck "main" "t", .commit "3", .loopStart "main",
      .cancel "a" "t"]

/-- **The cancel of one job aborts the signal of another.** -/
theorem cancel_aborts_the_next_job :
    (runActions (step 3) ( QueueState.initialize 3 Journal.empty) cancelsConfirmation).isSome ∧
      ¬ EveryStep (step 3) (fun _ _ t => Isolated t)
        ( QueueState.initialize 3 Journal.empty) cancelsConfirmation := by
  decide +kernel

end WorkspaceJobs
end StudioWeb
