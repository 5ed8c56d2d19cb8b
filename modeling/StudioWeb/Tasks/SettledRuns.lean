import StudioWeb.Tasks.RunSteps

/-!
# What becomes of a run that is over, and of one that is not
-/

namespace StudioWeb
namespace Tasks

open Scheduler LabelledRuns Option

variable {w t : RunWorld} {a : RunAction} {partition : Nat}

def RunWorld.Succeeded (w : RunWorld) : Prop := ∀ r, w.row = some r → r.state = .succeeded

/-- No delivery is between its read of the row and its answer. -/
def RunWorld.Quiet (w : RunWorld) : Prop := ∀ p d, w.deliveries p = some d → d.pc.isQuiet

def ResetsNoSuccess (w : RunWorld) (a : RunAction) (_ : RunWorld) : Prop :=
  ∀ call r, a = .retryResets call → w.row = some r → r.state ≠ .succeeded

theorem RunWorld.Quiet.goto {p : Nat} {message : Message} {pc : DeliveryPc} (h : w.Quiet)
    (hpc : pc.isQuiet) : (w.goto p message pc).Quiet := by
  intro q d hq
  rcases deliveries_setDelivery_cases hq with ⟨_, heq⟩ | ⟨_, hold⟩
  · cases heq
    exact hpc
  · exact h q d hold

theorem RunWorld.Quiet.free (h : w.Quiet) (p : Nat) : (w.setDelivery p none).Quiet := by
  intro q d hq
  rcases deliveries_setDelivery_cases hq with ⟨_, hnone⟩ | ⟨_, hold⟩
  · cases hnone
  · exact h q d hold

/-- What a run that has succeeded goes through: nothing. -/
structure Over (w : RunWorld) : Prop where
  succeeded : w.Succeeded
  quiet : w.Quiet

/-- **A run that has succeeded stays so**, and no handler starts. -/
theorem Over.change (h : Over w) (hchange : RunChange w a t) (hresets : ResetsNoSuccess w a t) :
    Over t ∧ t.executions = w.executions := by
  have hbusy : ∀ {p message pc}, w.deliveries p = some ⟨message, pc⟩ → pc.isQuiet :=
    fun hd => h.quiet _ _ hd
  cases hchange with
  | same => exact ⟨h, rfl⟩
  | handsOver message =>
    have hquiet : (w.count message).Quiet := h.quiet
    exact ⟨⟨h.succeeded, hquiet.goto trivial⟩, rfl⟩
  | reads =>
    rw [handle_of_settled fun r hr => by rw [h.succeeded r hr]; rfl]
    exact ⟨⟨h.succeeded, h.quiet.goto trivial⟩, rfl⟩
  | readFails => exact ⟨⟨h.succeeded, h.quiet.goto trivial⟩, rfl⟩
  | records _ _ _ _ _ hd => exact (hbusy hd).elim
  | recordFails _ _ _ _ _ hd => exact (hbusy hd).elim
  | returns _ _ _ _ hd => exact (hbusy hd).elim
  | checks _ _ _ _ _ hd => exact (hbusy hd).elim
  | forgets p => exact ⟨⟨h.succeeded, h.quiet.free p⟩, rfl⟩
  | ends p => exact ⟨⟨h.succeeded, h.quiet.free p⟩, rfl⟩
  | retryReads => exact ⟨⟨h.succeeded, h.quiet⟩, rfl⟩
  | resets call _ haction =>
    refine ⟨⟨?_, h.quiet⟩, rfl⟩
    intro r hr
    obtain ⟨r₀, hr₀, _⟩ := map_eq_some_iff.mp hr
    exact absurd (h.succeeded r₀ hr₀) (hresets call r₀ haction hr₀)
  | retryEnds => exact ⟨⟨h.succeeded, h.quiet⟩, rfl⟩
  | cancelGoes => exact ⟨⟨h.succeeded, h.quiet⟩, rfl⟩
  | cancelWrites =>
    refine ⟨⟨?_, h.quiet⟩, rfl⟩
    intro r hr
    obtain ⟨r₀, hr₀, rfl⟩ := map_eq_some_iff.mp hr
    exact h.succeeded r₀ hr₀
  | prunes =>
    refine ⟨⟨?_, h.quiet⟩, rfl⟩
    exact fun r hr => h.succeeded r (filter_eq_some_iff.mp hr).1

def QuietWhenSucceeded (w : RunWorld) : Prop := ∀ r, w.row = some r → r.state = .succeeded → w.Quiet

theorem QuietWhenSucceeded.change (hinv : RunInv partition w) (h : QuietWhenSucceeded w)
    (hchange : RunChange w a t) : QuietWhenSucceeded t := by
  -- the row of a step that leaves it alone has succeeded before
  have hover : ∀ r, w.row = some r → r.state = .succeeded → Over w :=
    fun r hr hs => ⟨fun r' hr' => by rw [hr] at hr'; cases hr'; exact hs, h r hr hs⟩
  intro r hr hs
  cases hchange with
  | records p _ patch after now hd =>
    obtain ⟨r₀, _, rfl⟩ : ∃ r₀, w.row = some r₀ ∧ patch.record now r₀ = r := by
      cases after <;> exact map_eq_some_iff.mp hr
    have hfits := hinv.fits p _ hd
    cases after with
    | execute =>
      change patch.state = .running at hfits
      rw [record_state, hfits] at hs
      cases hs
    | answer =>
      -- the partition has no other delivery
      intro q d hq
      rcases deliveries_setDelivery_cases hq with ⟨_, heq⟩ | ⟨hne, hold⟩
      · cases heq
        trivial
      · exact absurd ((hinv.deliveries q d hold).trans (hinv.deliveries p _ hd).symm) hne
  | resets =>
    obtain ⟨r₀, _, rfl⟩ := map_eq_some_iff.mp hr
    cases hs
  | same => exact h r hr hs
  | handsOver message =>
    have hquiet : (w.count message).Quiet := h r hr hs
    exact hquiet.goto trivial
  | reads _ message around =>
    have hrow : handle message.attempt around w.row = .answering .ok :=
      handle_of_settled (fun r' hr' => by rw [(hover r hr hs).succeeded r' hr']; rfl) _ _
    rw [hrow]
    exact (h r hr hs).goto trivial
  | readFails => exact (h r hr hs).goto trivial
  | recordFails p _ _ after _ hd =>
    have hrow : w.row = some r := by cases after <;> exact hr
    exact (h r hrow hs p _ hd).elim
  | returns p _ _ _ hd => exact (h r hr hs p _ hd).elim
  | checks p _ _ _ _ hd => exact (h r hr hs p _ hd).elim
  | forgets p => exact (h r hr hs).free p
  | ends p => exact (h r hr hs).free p
  | retryReads => exact h r hr hs
  | retryEnds => exact h r hr hs
  | cancelGoes => exact h r hr hs
  | cancelWrites =>
    obtain ⟨r₀, hr₀, rfl⟩ := map_eq_some_iff.mp hr
    exact h r₀ hr₀ hs
  | prunes => exact h r (filter_eq_some_iff.mp hr).1 hs

theorem quietWhenSucceeded_of_run {run : Scheduler.Run} {actions : List RunAction}
    (hrun : runActions RunWorld.step (RunWorld.enqueued run) actions = some w) :
    QuietWhenSucceeded w := by
  obtain ⟨partition, hstart⟩ := runInv_enqueued run
  have hpres : ∀ u a v, RunInv partition u ∧ QuietWhenSucceeded u → u.step a = some v →
      RunInv partition v ∧ QuietWhenSucceeded v := by
    rintro u a v ⟨hinv, hquiet⟩ hstep
    have hchange := change_of_step hstep
    exact ⟨hinv.change hchange, hquiet.change hinv hchange⟩
  refine (runActions_preserves hpres ⟨hstart, ?_⟩ hrun).2
  intro r _ _ p d hd
  cases hd

/-- **A succeeded run is never executed again**, while no retry resets it then. -/
theorem succeeded_run_stays
    (run : Scheduler.Run) (before after : List RunAction) (s t : RunWorld) (r : RunRow)
    (hbefore : runActions RunWorld.step (RunWorld.enqueued run) before = some s)
    (hrow : s.row = some r) (hsucceeded : r.state = .succeeded)
    (hresets : EveryStep RunWorld.step ResetsNoSuccess s after)
    (hafter : runActions RunWorld.step s after = some t) :
    t.Succeeded ∧ t.executions = s.executions := by
  have hover : Over s := by
    refine ⟨?_, quietWhenSucceeded_of_run hbefore r hrow hsucceeded⟩
    intro r' hr'
    rw [hrow] at hr'
    cases hr'
    exact hsucceeded
  have hpres : ∀ u a v, Over u ∧ u.executions = s.executions → u.step a = some v →
      ResetsNoSuccess u a v → Over v ∧ v.executions = s.executions := by
    rintro u a v ⟨hu, hcount⟩ hstep hadm
    obtain ⟨hv, hsame⟩ := hu.change (change_of_step hstep) hadm
    exact ⟨hv, hsame.trans hcount⟩
  obtain ⟨ht, hcount⟩ := runActions_invariant hpres ⟨hover, rfl⟩ hresets hafter
  exact ⟨ht.succeeded, hcount⟩

private def catalogSync : Scheduler.Run :=
  ⟨⟨"run-1"⟩, ⟨"tenant"⟩, "catalog.sync", .null, none, .queued, false, none⟩

/-- A handler with five attempts, and all in place. -/
private def inPlace : Surroundings :=
  ⟨some 5, true, .ok ()⟩

private def delivered (message : Nat) (outcome : TaskOutcome) : List RunAction :=
  [.handOver ⟨message, 0, 0⟩, .reads 0 inPlace, .records 0 1, .returns 0 outcome,
    .checks 0 true, .records 0 2, .answers 0]

/-- A run fails, two retries read it, and with one of them it succeeds. -/
private def retriedTwice : List RunAction :=
  delivered 0 (.failed "no network") ++ [.retryReads 0, .retryReads 1, .retryResets 0] ++
    delivered 1 (.done none none)

private def catalogAfter (actions : List RunAction) : RunWorld :=
  reached RunWorld.step (.enqueued catalogSync) actions

/-- A run succeeds, and its delivery is lost before the queue hears of it. -/
private def succeeds : List RunAction :=
  [.handOver ⟨0, 0, 0⟩, .reads 0 inPlace, .records 0 1, .returns 0 (.done none none),
    .checks 0 true, .records 0 2]

private def redelivered : List RunAction :=
  [.lost 0, .retryReads 0, .handOver ⟨0, 1, 0⟩, .cancelReads 0, .reads 0 inPlace, .answers 0]

theorem succeeded_run_stays_of_redelivered :
    (catalogAfter (succeeds ++ redelivered)).Succeeded ∧
      (catalogAfter (succeeds ++ redelivered)).executions =
        (catalogAfter succeeds).executions := by
  refine succeeded_run_stays catalogSync succeeds redelivered _ _ _ (runActions_reached rfl)
    rfl rfl ?_ (runActions_reached_append rfl)
  refine EveryStep.of_mem fun a ha u _ call r haction => ?_
  subst haction
  simp [redelivered] at ha

/-- **A late reset runs the work again**: a retry that has read the row as failed resets it
when another has seen it succeed. -/
theorem late_reset_runs_again :
    ∃ s t, runActions RunWorld.step (.enqueued catalogSync) retriedTwice = some s ∧
      s.row.map (fun r => r.state) = some .succeeded ∧
      runActions RunWorld.step s
        [.retryResets 1, .handOver ⟨2, 0, 0⟩, .reads 0 inPlace, .records 0 3] = some t ∧
      t.row.map (fun r => r.state) = some .running ∧ s.executions < t.executions := by
  refine ⟨catalogAfter retriedTwice, catalogAfter (retriedTwice ++ _),
    runActions_reached rfl, rfl, runActions_reached_append rfl, rfl, ?_⟩
  decide +kernel

/-- No delivery is about to have the message forgotten. -/
def RunWorld.Kept (w : RunWorld) (message : Message) : Prop :=
  ∀ p d, w.deliveries p = some d → d.message.id = message.id → d.pc.isFinal = false

/-- A run that is not over has a message that is handed over again. -/
def RunWorld.Owned (w : RunWorld) : Prop :=
  ∀ r, w.row = some r → r.state.isTerminal = false → ∃ m ∈ w.messages, w.Kept m

/-- What is recorded before a last answer takes effect, and the work has its context. -/
def OutcomeRecorded (w : RunWorld) (a : RunAction) (_ : RunWorld) : Prop :=
  (∀ p around, a = .reads p around → around.workerContext = .ok ()) ∧
    ∀ p message patch result, a = .recordFails p →
      w.deliveries p = some ⟨message, .recording patch (.answer result)⟩ →
      result.isFinal = false

theorem RunWorld.Kept.goto {p : Nat} {message m : Message} {pc : DeliveryPc} (h : w.Kept m)
    (hpc : message.id = m.id → pc.isFinal = false) : (w.goto p message pc).Kept m := by
  intro q d hq hid
  rcases deliveries_setDelivery_cases hq with ⟨_, heq⟩ | ⟨_, hold⟩
  · cases heq
    exact hpc hid
  · exact h q d hold hid

theorem RunWorld.Kept.free {m : Message} (h : w.Kept m) (p : Nat) :
    (w.setDelivery p none).Kept m := by
  intro q d hq hid
  rcases deliveries_setDelivery_cases hq with ⟨_, hnone⟩ | ⟨_, hold⟩
  · cases hnone
  · exact h q d hold hid

theorem kept_of_delivery {p : Nat} {message m : Message} {pc pc' : DeliveryPc}
    (hinv : RunInv partition w) (hd : w.deliveries p = some ⟨message, pc⟩)
    (hpc : pc'.isFinal = false) : (w.goto p message pc').Kept m := by
  intro q d hq _
  rcases deliveries_setDelivery_cases hq with ⟨_, heq⟩ | ⟨hne, hold⟩
  · cases heq
    exact hpc
  · exact absurd ((hinv.deliveries q d hold).trans (hinv.deliveries p _ hd).symm) hne

/-- **A run that is not over keeps a message.** -/
theorem Owned.change (hinv : RunInv partition w) (h : w.Owned) (hchange : RunChange w a t)
    (hrecorded : OutcomeRecorded w a t) : t.Owned := by
  intro r hr hgoing
  cases hchange with
  | same => exact h r hr hgoing
  | handsOver message =>
    obtain ⟨m, hm, hkept⟩ := h r hr hgoing
    obtain ⟨m', hm', hid⟩ : ∃ m' ∈ (w.count message).messages, m'.id = m.id := exists_count hm
    have hcount : (w.count message).Kept m' := by
      intro p d hd hdm
      exact hkept p d hd (hdm.trans hid)
    exact ⟨m', hm', hcount.goto fun _ => rfl⟩
  | reads p _ around haction =>
    change w.row = some r at hr
    obtain ⟨m, hm, hkept⟩ := h r hr hgoing
    refine ⟨m, hm, hkept.goto fun _ => ?_⟩
    rw [hr]
    exact handle_not_final hgoing (hrecorded.1 p around haction) _
  | readFails =>
    obtain ⟨m, hm, hkept⟩ := h r hr hgoing
    exact ⟨m, hm, hkept.goto fun _ => rfl⟩
  | records p _ patch after now hd =>
    have hpatch : patch.state.isTerminal = false := by
      obtain ⟨r₀, _, rfl⟩ : ∃ r₀, w.row = some r₀ ∧ patch.record now r₀ = r := by
        cases after <;> exact map_eq_some_iff.mp hr
      exact hgoing
    obtain ⟨m, hm, _⟩ := hinv.known p _ hd
    have hfits := hinv.fits p _ hd
    have hwritten := hinv.write (record_partition patch now)
    cases after with
    | execute =>
      refine ⟨m, hm, ?_⟩
      have hcount : RunInv partition { w with
          row := w.row.map (patch.record now), executions := w.executions + 1 } :=
        ⟨hwritten.row, hinv.messages, hinv.deliveries, hinv.retries, hinv.known, hinv.fresh,
          hinv.fits⟩
      exact kept_of_delivery hcount hd rfl
    | answer result =>
      refine ⟨m, hm, kept_of_delivery hwritten hd ?_⟩
      change patch.state.isTerminal = result.isFinal at hfits
      exact hfits.symm.trans hpatch
  | recordFails p message patch after haction hd =>
    cases after with
    | execute =>
      obtain ⟨m, hm, hkept⟩ := h r hr hgoing
      have hcount : ({ w with executions := w.executions + 1 } : RunWorld).Kept m := hkept
      exact ⟨m, hm, hcount.goto fun _ => rfl⟩
    | answer result =>
      obtain ⟨m, hm, hkept⟩ := h r hr hgoing
      exact ⟨m, hm, hkept.goto fun _ => hrecorded.2 p message patch result haction hd⟩
  | returns =>
    obtain ⟨m, hm, hkept⟩ := h r hr hgoing
    exact ⟨m, hm, hkept.goto fun _ => rfl⟩
  | checks _ _ execution outcome cancelled =>
    obtain ⟨m, hm, hkept⟩ := h r hr hgoing
    obtain ⟨patch, result, heq, _⟩ := conclude_eq execution cancelled outcome
    rw [heq]
    exact ⟨m, hm, hkept.goto fun _ => rfl⟩
  | forgets p message result hd hfinal =>
    obtain ⟨m, hm, hkept⟩ := h r hr hgoing
    -- the message that is forgotten is not the one that is kept
    have hne : m.id ≠ message.id := by
      intro hid
      have hnot := hkept p _ hd hid.symm
      change result.isFinal = false at hnot
      rw [hfinal] at hnot
      cases hnot
    exact ⟨m, List.mem_filter.mpr ⟨hm, by simpa using hne⟩, hkept.free p⟩
  | ends p =>
    obtain ⟨m, hm, hkept⟩ := h r hr hgoing
    exact ⟨m, hm, hkept.free p⟩
  | retryReads => exact h r hr hgoing
  | resets _ row =>
    refine ⟨⟨w.messageCount, 0, row.partition⟩, List.mem_append_right _ (by simp), ?_⟩
    intro p d hd hid
    obtain ⟨m, hm, hmid⟩ := hinv.known p d hd
    have hlt := hinv.fresh m hm
    have heq : d.message.id = w.messageCount := hid
    omega
  | retryEnds => exact h r hr hgoing
  | cancelGoes => exact h r hr hgoing
  | cancelWrites =>
    obtain ⟨r₀, hr₀, rfl⟩ := map_eq_some_iff.mp hr
    exact h r₀ hr₀ hgoing
  | prunes => exact h r (filter_eq_some_iff.mp hr).1 hgoing

/-- **No run is stranded**, where the outcomes are recorded. -/
theorem going_run_is_kept (run : Scheduler.Run) (actions : List RunAction) (t : RunWorld)
    (hrecorded : EveryStep RunWorld.step OutcomeRecorded (.enqueued run) actions)
    (hrun : runActions RunWorld.step (.enqueued run) actions = some t) : t.Owned := by
  obtain ⟨partition, hstart⟩ := runInv_enqueued run
  have hpres : ∀ u a v, RunInv partition u ∧ u.Owned → u.step a = some v →
      OutcomeRecorded u a v → RunInv partition v ∧ v.Owned := by
    rintro u a v ⟨hinv, howned⟩ hstep hadm
    have hchange := change_of_step hstep
    exact ⟨hinv.change hchange, Owned.change hinv howned hchange hadm⟩
  refine (runActions_invariant hpres ⟨hstart, ?_⟩ hrecorded hrun).2
  intro r _ _
  refine ⟨_, List.mem_singleton_self _, ?_⟩
  intro p d hd
  cases hd

/-- The record of a start fails, and the delivery is lost. -/
theorem going_run_is_kept_of_lost :
    (catalogAfter [.handOver ⟨0, 0, 0⟩, .reads 0 inPlace, .recordFails 0, .lost 0]).Owned := by
  refine going_run_is_kept catalogSync _ _ ?_ (runActions_reached rfl)
  refine (everyStep_cons_iff rfl).mpr ⟨?_, (everyStep_cons_iff rfl).mpr ⟨?_,
    (everyStep_cons_iff rfl).mpr ⟨?_, (everyStep_cons_iff rfl).mpr ⟨?_, trivial⟩⟩⟩⟩
  · exact ⟨fun _ _ ha => (nomatch ha), fun _ _ _ _ ha => (nomatch ha)⟩
  · refine ⟨fun p around ha => ?_, fun _ _ _ _ ha => (nomatch ha)⟩
    cases ha
    rfl
  · refine ⟨fun _ _ ha => (nomatch ha), fun p message patch result ha hd => ?_⟩
    cases ha
    cases hd
  · exact ⟨fun _ _ ha => (nomatch ha), fun _ _ _ _ ha => (nomatch ha)⟩

/-- **A lost record strands a run**: its handler is done and its message acknowledged, and
its row says that it is running, so that a retry is refused. -/
theorem lost_record_strands :
    ∃ t, runActions RunWorld.step (.enqueued catalogSync)
        [.handOver ⟨0, 0, 0⟩, .reads 0 inPlace, .records 0 1, .returns 0 (.done none none),
          .checks 0 true, .recordFails 0, .answers 0] = some t ∧
      t.row.map (fun r => r.state) = some .running ∧ t.messages = [] ∧
      t.step (.retryReads 0) = some t ∧ ¬ t.Owned := by
  refine ⟨_, runActions_reached rfl, rfl, rfl, rfl, ?_⟩
  intro howned
  obtain ⟨m, hm, _⟩ := howned _ rfl rfl
  cases hm

end Tasks
end StudioWeb
