import StudioWeb.Tasks.RunDelivery

/-!
# What a step of a run's system does
-/

namespace StudioWeb
namespace Tasks

open Scheduler LabelledRuns List Option

variable {w t : RunWorld} {a : RunAction}

inductive RunChange (w : RunWorld) (a : RunAction) : RunWorld → Prop
  | same : RunChange w a w
  | handsOver (message : Message)
      (hmem : message ∈ w.messages)
      (hfree : w.deliveries message.partition = none) :
      RunChange w a ((w.count message).goto message.partition message .reading)
  | reads (p : Nat) (message : Message) (around : Surroundings)
      (haction : a = .reads p around)
      (hd : w.deliveries p = some ⟨message, .reading⟩) :
      RunChange w a (w.goto p message (handle message.attempt around w.row))
  | readFails (p : Nat) (message : Message)
      (hd : w.deliveries p = some ⟨message, .reading⟩) :
      RunChange w a (w.goto p message (.answering .retry))
  | records (p : Nat) (message : Message) (patch : Patch) (after : AfterRecord) (now : Int)
      (hd : w.deliveries p = some ⟨message, .recording patch after⟩) :
      RunChange w a ({ w with row := w.row.map (patch.record now) }.afterRecord p message after)
  | recordFails (p : Nat) (message : Message) (patch : Patch) (after : AfterRecord)
      (haction : a = .recordFails p)
      (hd : w.deliveries p = some ⟨message, .recording patch after⟩) :
      RunChange w a (w.afterRecord p message after)
  | returns (p : Nat) (message : Message) (execution : Execution) (outcome : TaskOutcome)
      (hd : w.deliveries p = some ⟨message, .executing execution⟩) :
      RunChange w a (w.goto p message (.checking execution outcome))
  | checks (p : Nat) (message : Message) (execution : Execution) (outcome : TaskOutcome)
      (cancelled : Bool)
      (hd : w.deliveries p = some ⟨message, .checking execution outcome⟩) :
      RunChange w a (w.goto p message (conclude execution cancelled outcome))
  | forgets (p : Nat) (message : Message) (result : MessageResult)
      (hd : w.deliveries p = some ⟨message, .answering result⟩)
      (hfinal : result.isFinal = true) :
      RunChange w a ((w.setDelivery p none).forget message)
  | ends (p : Nat) (delivery : Delivery)
      (hd : w.deliveries p = some delivery) :
      RunChange w a (w.setDelivery p none)
  | retryReads (call : Nat) (row : RunRow)
      (hrow : w.row = some row) :
      RunChange w a (w.setRetry call (some row))
  | resets (call : Nat) (row : RunRow)
      (haction : a = .retryResets call)
      (hretry : w.retries call = some row) :
      RunChange w a ((w.requeue row.partition).setRetry call none)
  | retryEnds (call : Nat) : RunChange w a (w.setRetry call none)
  | cancelGoes (call : Nat) (goes : Bool) : RunChange w a (w.setCancel call goes)
  | cancelWrites (call : Nat) : RunChange w a (w.requestCancel.setCancel call false)
  | prunes : RunChange w a { w with row := w.row.filter fun r => !r.state.isTerminal }

theorem change_of_answers {p : Nat} (h : w.answers p = some t) : RunChange w a t := by
  unfold RunWorld.answers at h
  split at h
  · next message result hd =>
    cases hfinal : result.isFinal with
    | true =>
      simp only [hfinal, if_true, some.injEq] at h
      exact h ▸ .forgets p message result hd hfinal
    | false =>
      simp only [hfinal, Bool.false_eq_true, if_false, some.injEq] at h
      exact h ▸ .ends p ⟨message, .answering result⟩ hd
  · cases h

/-- **Every step is one of the cases.** -/
theorem change_of_step (h : w.step a = some t) : RunChange w a t := by
  cases a with
  | handOver message =>
    simp only [RunWorld.step, RunWorld.handOver] at h
    split at h
    · next hboth =>
      cases h
      exact .handsOver message hboth.1 (isNone_iff_eq_none.mp hboth.2)
    · cases h
  | reads p around =>
    simp only [RunWorld.step, RunWorld.reads] at h
    split at h
    · next message hd =>
      cases h
      exact .reads p message around rfl hd
    · cases h
  | readFails p =>
    simp only [RunWorld.step, RunWorld.readFails] at h
    split at h
    · next message hd =>
      cases h
      exact .readFails p message hd
    · cases h
  | records p now =>
    simp only [RunWorld.step, RunWorld.records] at h
    split at h
    · next message patch after hd =>
      cases h
      exact .records p message patch after now hd
    · cases h
  | recordFails p =>
    simp only [RunWorld.step, RunWorld.recordFails] at h
    split at h
    · next message patch after hd =>
      cases h
      exact .recordFails p message patch after rfl hd
    · cases h
  | returns p outcome =>
    simp only [RunWorld.step, RunWorld.returns] at h
    split at h
    · next message execution hd =>
      cases h
      exact .returns p message execution outcome hd
    · cases h
  | checks p =>
    simp only [RunWorld.step, RunWorld.checks] at h
    split at h
    · next message execution outcome hd =>
      cases h
      exact .checks p message execution outcome _ hd
    · cases h
  | answers => exact change_of_answers h
  | lost p =>
    obtain ⟨delivery, hd, rfl⟩ := map_eq_some_iff.mp h
    exact .ends p delivery hd
  | retryReads call =>
    simp only [RunWorld.step, RunWorld.retryReads] at h
    split at h
    · cases h
      exact .same
    · next row hrow =>
      split at h <;> cases h
      · exact .same
      · exact .same
      · exact .same
      · exact .retryReads call row hrow
      · exact .retryReads call row hrow
  | retryResets call =>
    obtain ⟨row, hretry, rfl⟩ := map_eq_some_iff.mp h
    exact .resets call row rfl hretry
  | retryFails call =>
    obtain ⟨_, _, rfl⟩ := map_eq_some_iff.mp h
    exact .retryEnds call
  | cancelReads call =>
    simp only [RunWorld.step, RunWorld.cancelReads] at h
    split at h
    · cases h
      exact .same
    · split at h <;> cases h
      · exact .same
      · exact .cancelGoes call true
  | cancelWrites call =>
    simp only [RunWorld.step, RunWorld.cancelWrites] at h
    split at h
    · cases h
      exact .cancelWrites call
    · cases h
  | cancelFails call =>
    simp only [RunWorld.step, RunWorld.cancelFails] at h
    split at h
    · cases h
      exact .cancelGoes call false
    · cases h
  | prunes =>
    cases h
    exact .prunes

/-- A delivery writes nothing more and starts nothing. -/
def DeliveryPc.isQuiet : DeliveryPc → Prop
  | .reading => True
  | .answering _ => True
  | _ => False

/-- A delivery is about to have its message forgotten. -/
def DeliveryPc.isFinal : DeliveryPc → Bool
  | .answering result => result.isFinal
  | _ => false

def DeliveryPc.Fits : DeliveryPc → Prop
  | .recording patch (.execute _) => patch.state = .running
  | .recording patch (.answer result) => patch.state.isTerminal = result.isFinal
  | _ => True

theorem fits_handleMissing (attempt : Nat) (ready : Bool) (row : RunRow) :
    (handleMissing attempt ready row).Fits := by
  simp only [handleMissing]
  split_ifs
  · trivial
  · rfl
  · trivial

theorem fits_handleWith
    (attempt maxAttempts : Nat) (workerContext : Except String Unit) (row : RunRow) :
    (handleWith attempt maxAttempts workerContext row).Fits := by
  simp only [handleWith]
  split_ifs
  · rfl
  · cases workerContext with
    | error => trivial
    | ok => rfl

theorem fits_handle (attempt : Nat) (around : Surroundings) (row : Option RunRow) :
    (handle attempt around row).Fits := by
  cases row with
  | none => trivial
  | some =>
    simp only [handle]
    split_ifs
    · trivial
    · rfl
    · cases around.handler with
      | none => exact fits_handleMissing _ _ _
      | some => exact fits_handleWith _ _ _ _

theorem conclude_eq (execution : Execution) (cancelled : Bool) (outcome : TaskOutcome) :
    ∃ patch result, conclude execution cancelled outcome = .recording patch (.answer result) ∧
      patch.state.isTerminal = result.isFinal := by
  unfold conclude
  split
  · exact ⟨_, _, rfl, rfl⟩
  · cases outcome with
    | done => exact ⟨_, _, rfl, rfl⟩
    | failed => exact ⟨_, _, rfl, rfl⟩
    | retry =>
      dsimp only
      split
      · exact ⟨_, _, rfl, rfl⟩
      · exact ⟨_, _, rfl, rfl⟩

theorem handle_of_settled {row : Option RunRow} (h : ∀ r, row = some r → r.state.isTerminal = true)
    (attempt : Nat) (around : Surroundings) : handle attempt around row = .answering .ok := by
  unfold handle
  split
  · rfl
  · next r =>
    rw [if_pos]
    rw [settled_eq_isTerminal]
    exact h r rfl

theorem handle_not_final {r : RunRow} {around : Surroundings} (hgoing : r.state.isTerminal = false)
    (hcontext : around.workerContext = .ok ()) (attempt : Nat) :
    (handle attempt around (some r)).isFinal = false := by
  simp only [handle, settled_eq_isTerminal, hgoing, Bool.false_eq_true, if_false, hcontext]
  split_ifs
  · rfl
  · cases around.handler with
    | none =>
      simp only [handleMissing]
      split_ifs <;> rfl
    | some =>
      simp only [handleWith]
      split_ifs <;> rfl

section Invariant

variable {partition : Nat}

structure RunInv (partition : Nat) (w : RunWorld) : Prop where
  row : ∀ r, w.row = some r → r.partition = partition
  messages : ∀ m ∈ w.messages, m.partition = partition
  deliveries : ∀ p d, w.deliveries p = some d → p = partition
  retries : ∀ call r, w.retries call = some r → r.partition = partition
  known : ∀ p d, w.deliveries p = some d → ∃ m ∈ w.messages, m.id = d.message.id
  fresh : ∀ m ∈ w.messages, m.id < w.messageCount
  fits : ∀ p d, w.deliveries p = some d → d.pc.Fits

theorem RunInv.write {f : RunRow → RunRow} (h : RunInv partition w)
    (hf : ∀ r, (f r).partition = r.partition) : RunInv partition { w with row := w.row.map f } := by
  refine ⟨?_, h.messages, h.deliveries, h.retries, h.known, h.fresh, h.fits⟩
  intro r hr
  obtain ⟨r₀, hr₀, rfl⟩ := map_eq_some_iff.mp hr
  rw [hf]
  exact h.row r₀ hr₀

variable {message : Message}

section

variable (h : RunInv partition w)
include h

theorem RunInv.goto {p : Nat} {pc pc' : DeliveryPc}
    (hd : w.deliveries p = some ⟨message, pc⟩) (hfits : pc'.Fits) :
    RunInv partition (w.goto p message pc') := by
  refine ⟨h.row, h.messages, ?_, h.retries, ?_, h.fresh, ?_⟩
  · intro q d hq
    rcases deliveries_setDelivery_cases hq with ⟨rfl, _⟩ | ⟨_, hold⟩
    · exact h.deliveries q ⟨message, pc⟩ hd
    · exact h.deliveries q d hold
  · intro q d hq
    rcases deliveries_setDelivery_cases hq with ⟨rfl, heq⟩ | ⟨_, hold⟩
    · cases heq
      exact h.known q ⟨message, pc⟩ hd
    · exact h.known q d hold
  · intro q d hq
    rcases deliveries_setDelivery_cases hq with ⟨rfl, heq⟩ | ⟨_, hold⟩
    · cases heq
      exact hfits
    · exact h.fits q d hold

theorem RunInv.afterRecord {p : Nat} {pc : DeliveryPc}
    (hd : w.deliveries p = some ⟨message, pc⟩) (after : AfterRecord) :
    RunInv partition (w.afterRecord p message after) := by
  cases after with
  | execute =>
    have hcount : RunInv partition { w with executions := w.executions + 1 } :=
      ⟨h.row, h.messages, h.deliveries, h.retries, h.known, h.fresh, h.fits⟩
    exact hcount.goto hd trivial
  | answer => exact h.goto hd trivial

theorem RunInv.free (p : Nat) :
    RunInv partition (w.setDelivery p none) := by
  have hold : ∀ q d, (w.setDelivery p none).deliveries q = some d → w.deliveries q = some d := by
    intro q d hq
    rcases deliveries_setDelivery_cases hq with ⟨_, hnone⟩ | ⟨_, hold⟩
    · cases hnone
    · exact hold
  refine ⟨h.row, h.messages, ?_, h.retries, ?_, h.fresh, ?_⟩
  · exact fun q d hq => h.deliveries q d (hold q d hq)
  · exact fun q d hq => h.known q d (hold q d hq)
  · exact fun q d hq => h.fits q d (hold q d hq)

theorem RunInv.setRetry {call : Nat} {row : Option RunRow}
    (hrow : ∀ r, row = some r → r.partition = partition) :
    RunInv partition (w.setRetry call row) := by
  refine ⟨h.row, h.messages, h.deliveries, ?_, h.known, h.fresh, h.fits⟩
  intro call' r hr
  simp only [RunWorld.setRetry, Function.update_apply] at hr
  split at hr
  · exact hrow r hr
  · exact h.retries call' r hr

theorem RunInv.handOver (hmem : message ∈ w.messages) :
    RunInv partition ((w.count message).goto message.partition message .reading) := by
  have hids : ∀ m ∈ (w.count message).messages, ∃ m₀ ∈ w.messages,
      m₀.id = m.id ∧ m₀.partition = m.partition := by
    intro m hm
    obtain ⟨m₀, hm₀, rfl⟩ := List.mem_map.mp hm
    refine ⟨m₀, hm₀, ?_⟩
    split <;> exact ⟨rfl, rfl⟩
  refine ⟨h.row, ?_, ?_, h.retries, ?_, ?_, ?_⟩
  · intro m hm
    obtain ⟨m₀, hm₀, _, heq⟩ := hids m hm
    rw [← heq]
    exact h.messages m₀ hm₀
  · intro q d hq
    rcases deliveries_setDelivery_cases hq with ⟨rfl, _⟩ | ⟨_, hold⟩
    · exact h.messages message hmem
    · exact h.deliveries q d hold
  · intro q d hq
    rcases deliveries_setDelivery_cases hq with ⟨rfl, heq⟩ | ⟨_, hold⟩
    · cases heq
      exact exists_count hmem
    · obtain ⟨m, hm, hid⟩ := h.known q d hold
      rw [← hid]
      exact exists_count hm
  · intro m hm
    obtain ⟨m₀, hm₀, heq, _⟩ := hids m hm
    rw [← heq]
    exact h.fresh m₀ hm₀
  · intro q d hq
    rcases deliveries_setDelivery_cases hq with ⟨rfl, heq⟩ | ⟨_, hold⟩
    · cases heq
      trivial
    · exact h.fits q d hold

/-- The queue forgets the message of a delivery that has ended: the partition has no
other. -/
theorem RunInv.forget {p : Nat} {delivery : Delivery}
    (hd : w.deliveries p = some delivery) (message : Message) :
    RunInv partition ((w.setDelivery p none).forget message) := by
  have hnone : ∀ q, (w.setDelivery p none).deliveries q = none := by
    intro q
    cases hq : (w.setDelivery p none).deliveries q with
    | none => rfl
    | some d =>
      rcases deliveries_setDelivery_cases hq with ⟨_, hnone⟩ | ⟨hne, hold⟩
      · cases hnone
      · exact absurd ((h.deliveries q d hold).trans (h.deliveries p delivery hd).symm) hne
  refine ⟨h.row, ?_, ?_, h.retries, ?_, ?_, ?_⟩
  · exact fun m hm => h.messages m (mem_of_mem_filter hm)
  · intro q d hq
    cases (hnone q).symm.trans hq
  · intro q d hq
    cases (hnone q).symm.trans hq
  · exact fun m hm => h.fresh m (mem_of_mem_filter hm)
  · intro q d hq
    cases (hnone q).symm.trans hq

theorem RunInv.requeue : RunInv partition (w.requeue partition) := by
  have hwrite := h.write reset_partition
  refine ⟨hwrite.row, ?_, h.deliveries, h.retries, ?_, ?_, h.fits⟩
  · intro m hm
    rcases mem_append.mp hm with hold | hnew
    · exact h.messages m hold
    · rw [mem_singleton.mp hnew]
  · intro p d hd
    obtain ⟨m, hm, hid⟩ := h.known p d hd
    exact ⟨m, mem_append_left _ hm, hid⟩
  · intro m hm
    change m.id < w.messageCount + 1
    rcases mem_append.mp hm with hold | hnew
    · have hlt := h.fresh m hold
      omega
    · rw [mem_singleton.mp hnew]
      exact Nat.lt_succ_self _

/-- **Every step keeps the invariant.** -/
theorem RunInv.change (hchange : RunChange w a t) :
    RunInv partition t := by
  cases hchange with
  | same => exact h
  | handsOver _ hmem => exact h.handOver hmem
  | reads _ _ _ _ hd => exact h.goto hd (fits_handle _ _ _)
  | readFails _ _ hd => exact h.goto hd trivial
  | records _ _ patch after now hd =>
    exact (h.write (record_partition patch now)).afterRecord hd after
  | recordFails _ _ _ after _ hd => exact h.afterRecord hd after
  | returns _ _ _ _ hd => exact h.goto hd trivial
  | checks _ _ execution outcome cancelled hd =>
    obtain ⟨patch, result, heq, hfits⟩ := conclude_eq execution cancelled outcome
    rw [heq]
    exact h.goto hd hfits
  | forgets _ message _ hd => exact h.forget hd message
  | ends p => exact h.free p
  | retryReads _ row hrow =>
    refine h.setRetry fun r hr => ?_
    cases hr
    exact h.row row hrow
  | resets call row _ hretry =>
    rw [h.retries call row hretry]
    exact h.requeue.setRetry fun r hr => by cases hr
  | retryEnds => exact h.setRetry fun r hr => by cases hr
  | cancelGoes =>
    exact ⟨h.row, h.messages, h.deliveries, h.retries, h.known, h.fresh, h.fits⟩
  | cancelWrites =>
    have hwrite : RunInv partition w.requestCancel := h.write fun _ => rfl
    exact ⟨hwrite.row, h.messages, h.deliveries, h.retries, h.known, h.fresh, h.fits⟩
  | prunes =>
    refine ⟨?_, h.messages, h.deliveries, h.retries, h.known, h.fresh, h.fits⟩
    exact fun r hr => h.row r (filter_eq_some_iff.mp hr).1

end

theorem runInv_enqueued (run : Scheduler.Run) :
    ∃ partition, RunInv partition (RunWorld.enqueued run) := by
  refine ⟨partitionFor run.taskType (run.partitionKey.getD run.id.text), ?_, ?_, ?_, ?_, ?_, ?_, ?_⟩
  · intro r hr
    cases hr
    rfl
  · intro m hm
    rw [mem_singleton.mp hm]
    rfl
  · intro p d hd
    cases hd
  · intro call r hr
    cases hr
  · intro p d hd
    cases hd
  · intro m hm
    rw [mem_singleton.mp hm]
    exact Nat.lt_succ_self 0
  · intro p d hd
    cases hd

end Invariant

end Tasks
end StudioWeb
