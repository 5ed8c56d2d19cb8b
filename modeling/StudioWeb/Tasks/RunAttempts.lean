import StudioWeb.Library.LabelledRuns
import StudioWeb.Tasks.RunDelivery

/-!
# The attempts of a run

The deliveries of one run whose handler answers `Retry` each time, where every statement
takes effect: some find the handlers still registering, and those after them find the
handler.  The queue counts every delivery, and the number of the attempt is its count.
-/

namespace StudioWeb
namespace Tasks

open Scheduler LabelledRuns RunWorld

section Deliveries

variable (reason : Nat → String) (now : Nat → Int) (p n : Nat)

/-- The number of the attempt that a message is handed over for after `k` deliveries. -/
def attemptAfter (k : Nat) : Nat := min (k + 1) 32767

/-- A delivery while the handlers are still registering. -/
def putBack (k : Nat) : List RunAction :=
  [.handOver ⟨0, k, p⟩, .reads p ⟨none, false, .ok ()⟩, .answers p]

/-- A delivery whose handler answers `Retry`. -/
def attempted (k : Nat) : List RunAction :=
  [.handOver ⟨0, k, p⟩, .reads p ⟨some n, true, .ok ()⟩, .records p (now (2 * k)),
    .returns p (.retry (reason k)), .checks p true, .records p (now (2 * k + 1)), .answers p]

def givenUp (k : Nat) : List RunAction :=
  [.handOver ⟨0, k, p⟩, .reads p ⟨some n, true, .ok ()⟩, .records p (now (2 * k)), .answers p]

/-- The deliveries that find the handler, after `k` others. -/
def attemptsFrom : Nat → Nat → List RunAction
  | 0, _ => []
  | fuel + 1, k =>
    if n < attemptAfter k then givenUp now p n k
    else if n ≤ attemptAfter k then attempted reason now p n k
    else attempted reason now p n k ++ attemptsFrom fuel (k + 1)

/-- The deliveries of a run of which `early` come before the handlers are there. -/
def deliveriesOf (early : Nat) : List RunAction :=
  (List.range early).flatMap (putBack p) ++ attemptsFrom reason now p n (n + 1) early

/-- How often the handler is executed after `k` other deliveries. -/
def executionsFrom (k : Nat) : Nat :=
  if k < n then n - k else if n < attemptAfter k then 0 else 1

end Deliveries

section Course

variable {reason : Nat → String} {now : Nat → Int} {p n k : Nat} {row : RunRow} {e : Nat}

@[simp] theorem attempt_message (k p : Nat) :
    (⟨0, k, p⟩ : Message).attempt = attemptAfter k := rfl

@[simp] theorem record_cancelRequested (patch : Patch) (now : Int) (r : RunRow) :
    (patch.record now r).cancelRequested = r.cancelRequested := rfl

/-- The run between two deliveries: its message is in the queue. -/
def waiting (p : Nat) (row : RunRow) (k e : Nat) : RunWorld :=
  ⟨some row, [⟨0, k, p⟩], 1, fun _ => none, fun _ => none, fun _ => false, e⟩

/-- A delivery of the run does something. -/
def Going (row : RunRow) : Prop := settled row.state = false ∧ row.cancelRequested = false

/-- The run is recorded as failed, and the queue has forgotten it. -/
def GivenUp (executions : Nat) (w : RunWorld) : Prop :=
  w.row.map (fun r => r.state) = some .failed ∧ w.messages = [] ∧ w.executions = executions

attribute [local simp] runActions RunWorld.step handOver RunWorld.count waiting
  goto setDelivery reads handle handleMissing handleWith
  records afterRecord returns checks conclude
  answers forget MessageResult.isFinal

theorem run_putBack (h : Going row) :
    runActions RunWorld.step (waiting p row k e) (putBack p k) = some (waiting p row (k + 1) e) := by
  simp [putBack, h.1, h.2]

theorem run_early (h : Going row) (early : Nat) :
    runActions RunWorld.step (waiting p row 0 e) ((List.range early).flatMap (putBack p)) =
      some (waiting p row early e) := by
  induction early with
  | zero => rfl
  | succ _ ih =>
    rw [List.range_succ, List.flatMap_append, List.flatMap_singleton]
    exact runActions_append_iff.mpr ⟨_, ih, run_putBack h⟩

theorem run_attempted (h : Going row) (hk : attemptAfter k < n) :
    ∃ row', Going row' ∧ runActions RunWorld.step (waiting p row k e) (attempted reason now p n k) =
        some (waiting p row' (k + 1) (e + 1)) := by
  have hnot : ¬ n < attemptAfter k := by omega
  have hmore : ¬ n ≤ attemptAfter k := by omega
  refine ⟨_, ?_, by simp [attempted, h.1, h.2, hnot, hmore]; rfl⟩
  exact ⟨rfl, h.2⟩

theorem run_last (h : Going row) (hk : attemptAfter k = n) :
    ∃ w, runActions RunWorld.step (waiting p row k e) (attempted reason now p n k) = some w ∧
      GivenUp (e + 1) w := by
  subst hk
  refine ⟨_, by simp [attempted, h.1, h.2]; rfl, ?_⟩
  simp [GivenUp, Patch.ofState]

theorem run_givenUp (h : Going row) (hk : n < attemptAfter k) :
    ∃ w, runActions RunWorld.step (waiting p row k e) (givenUp now p n k) = some w ∧
      GivenUp e w := by
  refine ⟨_, by simp [givenUp, h.1, h.2, hk]; rfl, ?_⟩
  simp [GivenUp, Patch.ofState]

theorem run_attemptsFrom (hmax : n ≤ 32767) (h : Going row) (fuel : Nat) (hfuel : n < k + fuel + 1)
    (hpos : 0 < fuel) :
    ∃ w, runActions RunWorld.step (waiting p row k e) (attemptsFrom reason now p n fuel k) = some w ∧
      GivenUp (e + executionsFrom n k) w := by
  induction fuel generalizing k row e with
  | zero => omega
  | succ _ ih =>
    unfold attemptsFrom executionsFrom
    split_ifs with hover hbefore hlast hbefore hbefore
    all_goals simp only [attemptAfter] at *
    · omega
    · exact run_givenUp h hover
    · have hone : n - k = 1 := by omega
      rw [hone]
      exact run_last h (by rw [attemptAfter]; omega)
    · exact run_last h (by rw [attemptAfter]; omega)
    · obtain ⟨row', hrow', hrun⟩ := @run_attempted reason now p n k row e h
        (by rw [attemptAfter]; omega)
      obtain ⟨w, hw, hgiven⟩ := @ih (k + 1) row' (e + 1) hrow' (by omega) (by omega)
      refine ⟨w, runActions_append_iff.mpr ⟨_, hrun, hw⟩, ?_⟩
      have hnext : e + 1 + executionsFrom n (k + 1) = e + (n - k) := by
        unfold executionsFrom
        rw [if_pos (by omega)]
        omega
      rwa [hnext] at hgiven
    · omega

end Course

section Attempts

variable (run : Scheduler.Run) (reason : Nat → String) (now : Nat → Int) (n early : Nat)

def GivenUpAfter (executions : Nat) : Prop :=
  ∃ w, runActions RunWorld.step (.enqueued run)
      (deliveriesOf reason now (partitionFor run.taskType (run.partitionKey.getD run.id.text)) n
        early) = some w ∧
    GivenUp executions w

/-- **The deliveries end**, with the run recorded as failed. -/
theorem deliveries_end (hmax : n ≤ 32767) :
    GivenUpAfter run reason now n early (executionsFrom n early) := by
  let row : RunRow :=
    { run with
      state := .queued, cancelRequested := false, attempts := 0, summary := none,
      result := none, lastError := none, startedAt := none, finishedAt := none }
  have hgoing : Going row := ⟨rfl, rfl⟩
  obtain ⟨w, hw, hgiven⟩ := @run_attemptsFrom reason now row.partition n early row 0 hmax hgoing
    (n + 1) (by omega) (by omega)
  rw [Nat.zero_add] at hgiven
  exact ⟨w, runActions_append_iff.mpr ⟨_, run_early hgoing early, hw⟩, hgiven⟩

/-- **A run gets its attempts** exactly when no delivery finds the handlers still
registering. -/
theorem attempts_are_used_iff (hpos : 1 ≤ n) (hmax : n ≤ 32767) :
    GivenUpAfter run reason now n early n ↔ early = 0 := by
  obtain ⟨w, hw, hgiven⟩ := deliveries_end run reason now n early hmax
  have hsame : GivenUpAfter run reason now n early n ↔ executionsFrom n early = n := by
    constructor
    · rintro ⟨v, hv, hused⟩
      obtain rfl := Option.some.inj (hw.symm.trans hv)
      exact hgiven.2.2.symm.trans hused.2.2
    · intro hused
      exact ⟨w, hw, hused ▸ hgiven⟩
  rw [hsame]
  unfold executionsFrom attemptAfter
  split_ifs <;> omega

end Attempts

private def buildRun : Scheduler.Run :=
  ⟨⟨"1"⟩, ⟨"2"⟩, "build", .obj [], none, .queued, false, none⟩

/-- A run with one attempt, delivered once. -/
theorem one_attempt_is_used :
    GivenUpAfter buildRun (fun _ => "") (fun _ => 0) 1 0 1 ↔ 0 = 0 :=
  attempts_are_used_iff buildRun _ _ 1 0 (by decide) (by decide)

/-- A delivery before the handlers are there uses the only attempt. -/
theorem early_delivery_uses_the_attempt :
    ¬ ∀ (run : Scheduler.Run) (reason : Nat → String) (now : Nat → Int) (n early : Nat),
      1 ≤ n → n ≤ 32767 → GivenUpAfter run reason now n early n := by
  intro hall
  obtain ⟨v, hv, hused⟩ := hall buildRun (fun _ => "") (fun _ => 0) 1 1 (by decide) (by decide)
  obtain ⟨w, hw, hgiven⟩ := deliveries_end buildRun (fun _ => "") (fun _ => 0) 1 1 (by decide)
  obtain rfl := Option.some.inj (hw.symm.trans hv)
  exact absurd (hgiven.2.2.symm.trans hused.2.2) (by decide)

end Tasks
end StudioWeb
