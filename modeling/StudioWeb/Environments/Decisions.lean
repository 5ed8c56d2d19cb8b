import StudioWeb.Environments.DeployInvariant

/-!
# A decision is final

Approvals and declines of one deployment, each read, write and enqueue a step of its own.
-/

namespace StudioWeb
namespace Environments

open Scheduler (Uuid RunState)
open LabelledRuns

namespace DeployWorld

open List Function DeployWorld

def StoredIn (w : DeployWorld) (id : Uuid) (states : List DeploymentState) : Prop :=
  ∃ x, w.list.get id = some x ∧ x.state ∈ states

/-- The stored record of a deployment is in none of these states. -/
def StoredOut (w : DeployWorld) (id : Uuid) (states : List DeploymentState) : Prop :=
  ∃ x, w.list.get id = some x ∧ x.state ∉ states

/-- A decline is written over a record that still waits or is declined; an approval over
one that is not declined. -/
def DecidesOpen (w : DeployWorld) (a : DeployAction) : Prop :=
  (∀ call base value, a = .declines call → w.calls call = .declining base value →
    w.StoredIn value.id [.awaitingApproval, .declined]) ∧
  ∀ call base value, a = .approves call → w.calls call = .approving base value →
    w.StoredOut value.id [.declined]

def HasRun (w : DeployWorld) (id : Uuid) : Prop := ∃ r ∈ w.runs, r.deployment.id = id

/-- A call is about to queue a run of a deployment, or has just done so. -/
def Queues (w : DeployWorld) (id : Uuid) : Prop :=
  ∃ call, (∃ d, w.calls call = .queueing d ∧ d.id = id) ∨
    ∃ base value, w.calls call = .finishing base value ∧ value.id = id

def Approved (w : DeployWorld) (id : Uuid) : Prop := w.HasRun id ∨ w.Queues id

/-- No decision was made twice. -/
structure Decided (w : DeployWorld) : Prop where
  waiting : ∀ x ∈ w.list.items, x.state = .awaitingApproval ∨ x.state = .declined →
    ¬ w.Approved x.id
  declined : ∀ id ∈ w.declined, ¬ w.Approved id
  stays : ∀ id ∈ w.declined, ∀ x ∈ w.list.items, x.id = id → x.state = .declined
  asked : ∀ id ∈ w.declined, id ∈ w.asked.map Deployment.id

theorem decided_start : start.Decided := by
  refine ⟨?_, ?_, ?_, ?_⟩
  · intro x hx
    cases hx
  · intro id hid
    cases hid
  · intro id hid
    cases hid
  · intro id hid
    cases hid

section Steps

variable
  {w t : DeployWorld}
  {a : DeployAction}
  {id : Uuid}
  {base value d x : Deployment}
  {call : Nat}
  {pc : CallPc}

theorem known_id (h : Known w.asked d) : d.id ∈ w.asked.map Deployment.id := by
  obtain ⟨o, ho, hsame⟩ := List.mem_map.mp h
  have hoid : o.id = d.id := congrArg Prod.fst hsame
  exact List.mem_map.mpr ⟨o, ho, hoid⟩

theorem asked_of_approved (h : w.Sound) (happroved : w.Approved id) :
    id ∈ w.asked.map Deployment.id := by
  rcases happroved with ⟨r, hr, rfl⟩ | ⟨c, ⟨d, hc, rfl⟩ | ⟨base, value, hc, rfl⟩⟩
  · exact known_id (h.runs_known r hr)
  · have hok := h.calls c
    rw [hc] at hok
    exact known_id hok.1.known
  · have hok := h.calls c
    rw [hc] at hok
    have hfinishes : w.Finishes base value := hok
    exact known_id hfinishes.rewrites.written.known

/-- A call is not queueing a run, nor has just done so. -/
def Elsewhere (pc : CallPc) : Prop :=
  (∀ d, pc ≠ .queueing d) ∧ ∀ base value, pc ≠ .finishing base value

theorem elsewhere_idle : Elsewhere .idle := ⟨fun _ h => (nomatch h), fun _ _ h => (nomatch h)⟩

theorem elsewhere_approving : Elsewhere (.approving base value) :=
  ⟨fun _ h => (nomatch h), fun _ _ h => (nomatch h)⟩

theorem elsewhere_declining : Elsewhere (.declining base value) :=
  ⟨fun _ h => (nomatch h), fun _ _ h => (nomatch h)⟩

theorem elsewhere_writingBack {pending : List (Deployment × Deployment)} :
    Elsewhere (.writingBack pending) :=
  ⟨fun _ h => (nomatch h), fun _ _ h => (nomatch h)⟩

theorem approved_of_setCall (hpc : Elsewhere pc) (h : (w.setCall call pc).Approved id) :
    w.Approved id := by
  rcases h with hrun | ⟨c, hqueues⟩
  · exact .inl hrun
  · right
    by_cases hcall : c = call
    · simp only [setCall, hcall, update_self] at hqueues
      rcases hqueues with ⟨d, hd, _⟩ | ⟨base, value, hf, _⟩
      · exact absurd hd (hpc.1 d)
      · exact absurd hf (hpc.2 base value)
    · simp only [setCall, update_of_ne hcall] at hqueues
      exact ⟨c, hqueues⟩

/-- A call that queues or finishes does so for this id. -/
def Names (pc : CallPc) (i : Uuid) : Prop :=
  (∀ d, pc = .queueing d → d.id = i) ∧ ∀ base v, pc = .finishing base v → v.id = i

theorem names_queueing : Names (.queueing d) d.id := by
  refine ⟨?_, fun _ _ h => (nomatch h)⟩
  intro e he
  cases he
  rfl

theorem names_finishing : Names (.finishing base value) value.id := by
  refine ⟨fun _ h => (nomatch h), ?_⟩
  intro b v hv
  cases hv
  rfl

theorem approved_of_setCall_names {i : Uuid} (hpc : Names pc i)
    (h : (w.setCall call pc).Approved id) : w.Approved id ∨ id = i := by
  rcases h with hrun | ⟨c, hqueues⟩
  · exact .inl (.inl hrun)
  · by_cases hcall : c = call
    · right
      simp only [setCall, hcall, update_self] at hqueues
      rcases hqueues with ⟨d, hd, hid⟩ | ⟨base, v, hf, hid⟩
      · exact hid.symm.trans (hpc.1 d hd)
      · exact hid.symm.trans (hpc.2 base v hf)
    · simp only [setCall, update_of_ne hcall] at hqueues
      exact .inl (.inr ⟨c, hqueues⟩)

theorem decided_of_less (h : w.Decided)
    (hasked : ∀ id ∈ w.asked.map Deployment.id, id ∈ t.asked.map Deployment.id)
    (hdeclined : t.declined = w.declined) (happroved : ∀ id, t.Approved id → w.Approved id)
    (hstored : ∀ x ∈ t.list.items, (∃ y ∈ w.list.items, y.id = x.id ∧ y.state = x.state) ∨
        (x.id ∉ w.declined ∧ x.state ≠ .awaitingApproval ∧ x.state ≠ .declined)) :
    t.Decided := by
  refine ⟨?_, ?_, ?_, ?_⟩
  · intro x hx hstate happ
    rcases hstored x hx with ⟨y, hy, hid, hsame⟩ | ⟨_, hnot, hnot'⟩
    · exact h.waiting y hy (hsame ▸ hstate) (hid ▸ happroved _ happ)
    · exact hstate.elim hnot hnot'
  · intro id hid happ
    rw [hdeclined] at hid
    exact h.declined id hid (happroved id happ)
  · intro id hid x hx hxid
    rw [hdeclined] at hid
    rcases hstored x hx with ⟨y, hy, hyid, hsame⟩ | ⟨hnot, _⟩
    · rw [← hsame]
      exact h.stays id hid y hy (hyid.trans hxid)
    · exact absurd (hxid ▸ hid) hnot
  · intro id hid
    rw [hdeclined] at hid
    exact hasked id (h.asked id hid)

theorem decided_record_approved (h : w.Decided) (hvalue : w.Approved value.id)
    (hstate : value.state ≠ .awaitingApproval ∧ value.state ≠ .declined) (hpc : Elsewhere pc) :
    ((w.record value).setCall call pc).Decided := by
  refine decided_of_less h (fun _ hid => hid) rfl ?_ ?_
  · intro id happ
    have hrecord : (w.record value).Approved id := approved_of_setCall hpc happ
    exact hrecord
  · intro x hx
    rcases mem_record hx with rfl | ⟨hx, _⟩
    · right
      refine ⟨?_, hstate⟩
      intro hdeclined
      exact h.declined _ hdeclined hvalue
    · exact .inl ⟨x, hx, rfl, rfl⟩

theorem decided_asking (h : w.Decided) : (w.asking d).Decided := by
  refine decided_of_less h ?_ rfl (fun _ happ => happ) (fun x hx => .inl ⟨x, hx, rfl, rfl⟩)
  intro id hid
  obtain ⟨o, ho, hoid⟩ := List.mem_map.mp hid
  exact List.mem_map.mpr ⟨o, mem_append_left _ ho, hoid⟩

theorem decided_record_queued (h : w.Decided) (hstate : value.state = .queued)
    (hnot : value.id ∉ w.declined) :
    ((w.record value).setCall call (.queueing value)).Decided := by
  have happroved : ∀ id, ((w.record value).setCall call (.queueing value)).Approved id →
      w.Approved id ∨ id = value.id :=
    fun _ happ => approved_of_setCall_names names_queueing happ
  refine ⟨?_, ?_, ?_, h.asked⟩
  · intro x hx hxstate happ
    rcases mem_record hx with rfl | ⟨hx, hxid⟩
    · rw [hstate] at hxstate
      rcases hxstate with hs | hs <;> cases hs
    · rcases happroved _ happ with hold | hself
      · exact h.waiting x hx hxstate hold
      · exact hxid hself
  · intro id hmem happ
    rcases happroved id happ with hold | hself
    · exact h.declined id hmem hold
    · exact hnot (hself ▸ hmem)
  · intro id hmem x hx hxid
    rcases mem_record hx with rfl | ⟨hx, _⟩
    · exact absurd (hxid ▸ hmem) hnot
    · exact h.stays id hmem x hx hxid

theorem approved_of_queued {fresh : Uuid} (h : (w.queued d fresh).Approved id) :
    w.Approved id ∨ id = d.id := by
  rcases h with ⟨r, hr, hid⟩ | hqueues
  · simp only [queued] at hr
    rcases enqueueRun_cases w.runs d fresh with ⟨_, _, _, henqueue⟩ | ⟨_, henqueue⟩
    · rw [henqueue] at hr
      exact .inl (.inl ⟨r, hr, hid⟩)
    · rw [henqueue] at hr
      rcases mem_append.mp hr with hold | hnew
      · exact .inl (.inl ⟨r, hold, hid⟩)
      · rw [mem_singleton.mp hnew] at hid
        exact .inr hid.symm
  · exact .inl (.inr hqueues)

theorem approved_of_ran {r r' : DeployRun} (hgoes : w.GoesOn r r') (h : (w.ran r').Approved id) :
    w.Approved id := by
  rcases h with ⟨x, hx, hid⟩ | hqueues
  · left
    rcases mem_setRun hx with rfl | ⟨hx, _⟩
    · exact ⟨r, hgoes.mem, by rw [← hgoes.deployment]; exact hid⟩
    · exact ⟨x, hx, hid⟩
  · exact .inr hqueues

theorem decided_steps (hsound : w.Sound) (h : w.Decided) (hopen : w.DecidesOpen a)
    (hsteps : Steps w a t) : t.Decided := by
  have hkeep : ∀ x ∈ w.list.items, (∃ y ∈ w.list.items, y.id = x.id ∧ y.state = x.state) ∨
      (x.id ∉ w.declined ∧ x.state ≠ .awaitingApproval ∧ x.state ≠ .declined) :=
    fun x hx => .inl ⟨x, hx, rfl, rfl⟩
  have hsame : ∀ id ∈ w.asked.map Deployment.id, id ∈ w.asked.map Deployment.id :=
    fun _ hid => hid
  cases hsteps with
  | nothing => exact h
  | holds _ d _ _ hid =>
    have hnotApproved : ¬ w.Approved d.id :=
      fun happ => hid (asked_of_approved hsound happ)
    have hasked := decided_asking (d := d) h
    refine ⟨?_, h.declined, ?_, hasked.asked⟩
    · intro x hx hstate happ
      rcases mem_record hx with rfl | ⟨hx, _⟩
      · exact hnotApproved happ
      · exact h.waiting x hx hstate happ
    · intro id hdeclined x hx hxid
      rcases mem_record hx with rfl | ⟨hx, _⟩
      · exact absurd (h.asked id hdeclined) (hxid ▸ hid)
      · exact h.stays id hdeclined x hx hxid
  | asks _ _ _ hnew hid =>
    exact decided_record_queued (decided_asking h) hnew.state
      (fun hdeclined => hid (h.asked _ hdeclined))
  | decides _ id _ _ _ _ _ _ _ _ hmade =>
    refine decided_of_less h hsame rfl ?_ hkeep
    intro id happ
    obtain ⟨base, value, _, _, _, _, _, ⟨rfl, _⟩ | ⟨rfl, _⟩⟩ := hmade
    · exact approved_of_setCall elsewhere_approving happ
    · exact approved_of_setCall elsewhere_declining happ
  | approves call base value hpc =>
    obtain ⟨y, hget, hstate⟩ := hopen.2 call base value rfl hpc
    obtain ⟨hy, hyid⟩ := (get_eq_some_iff hsound.stored).mp hget
    have hnotDeclined : value.id ∉ w.declined := by
      intro hdeclined
      have hydeclined := h.stays _ hdeclined y hy hyid
      exact hstate (by rw [hydeclined]; exact List.mem_cons_self)
    have hok := hsound.calls call
    rw [hpc] at hok
    obtain ⟨_, _, hvstate, _⟩ := hok
    exact decided_record_queued h hvstate hnotDeclined
  | declines call base value hpc =>
    obtain ⟨y, hget, hstate⟩ := hopen.1 call base value rfl hpc
    obtain ⟨hy, hyid⟩ := (get_eq_some_iff hsound.stored).mp hget
    have hywaits : y.state = .awaitingApproval ∨ y.state = .declined := by
      simpa using hstate
    have hnotApproved : ¬ w.Approved value.id := hyid ▸ h.waiting y hy hywaits
    have hok := hsound.calls call
    rw [hpc] at hok
    obtain ⟨hrewrites, _, hvstate⟩ := hok
    have happroved : ∀ id, DeployWorld.Approved
        { (w.record value).setCall call .idle with declined := w.declined ++ [value.id] } id →
        w.Approved id := by
      intro id happ
      have hcall : ((w.record value).setCall call .idle).Approved id := happ
      exact approved_of_setCall elsewhere_idle hcall
    refine ⟨?_, ?_, ?_, ?_⟩
    · intro x hx hxstate happ
      rcases mem_record hx with rfl | ⟨hx, _⟩
      · exact hnotApproved (happroved _ happ)
      · exact h.waiting x hx hxstate (happroved _ happ)
    · intro id hmem happ
      rcases mem_append.mp hmem with hold | hnew
      · exact h.declined id hold (happroved id happ)
      · rw [mem_singleton.mp hnew] at happ
        exact hnotApproved (happroved _ happ)
    · intro id hmem x hx hxid
      rcases mem_record hx with rfl | ⟨hx, hne⟩
      · exact hvstate
      · rcases mem_append.mp hmem with hold | hnew
        · exact h.stays id hold x hx hxid
        · exact absurd (hxid.trans (mem_singleton.mp hnew)) hne
    · intro id hmem
      rcases mem_append.mp hmem with hold | hnew
      · exact h.asked id hold
      · rw [mem_singleton.mp hnew]
        exact known_id hrewrites.written.known
  | enqueues call _ d hpc =>
    have hqueues : w.Approved d.id := .inr ⟨call, .inl ⟨d, hpc, rfl⟩⟩
    refine decided_of_less h hsame rfl ?_ hkeep
    intro id happ
    rcases approved_of_setCall_names names_finishing happ with hold | rfl
    · rcases approved_of_queued hold with hold | rfl
      · exact hold
      · exact hqueues
    · exact hqueues
  | enqueueFails call _ d hpc =>
    have hqueues : w.Approved d.id := .inr ⟨call, .inl ⟨d, hpc, rfl⟩⟩
    refine decided_of_less h hsame rfl ?_ hkeep
    intro id happ
    rcases approved_of_setCall_names names_finishing happ with hold | rfl
    · exact hold
    · exact hqueues
  | finishes call base value hpc =>
    have hok := hsound.calls call
    rw [hpc] at hok
    have hfinishes : w.Finishes base value := hok
    have hvstate : value.state ≠ .awaitingApproval ∧ value.state ≠ .declined := by
      rcases hfinishes.outcome with ⟨hs, _⟩ | ⟨hs, _⟩ <;> rw [hs] <;> decide
    exact decided_record_approved h (.inr ⟨call, .inr ⟨base, value, hpc, rfl⟩⟩) hvstate
      elsewhere_idle
  | reads =>
    refine decided_of_less h hsame rfl ?_ hkeep
    intro id happ
    exact approved_of_setCall elsewhere_writingBack happ
  | wrote =>
    refine decided_of_less h hsame rfl ?_ hkeep
    intro id happ
    exact approved_of_setCall elsewhere_idle happ
  | writesBack call base value _ hpc =>
    have hok := hsound.calls call
    rw [hpc] at hok
    have hended : w.Ended base value := hok (base, value) List.mem_cons_self
    obtain ⟨r, hr, _, hdep, _, hvstate⟩ := hended.run
    have hstate : value.state ≠ .awaitingApproval ∧ value.state ≠ .declined := by
      rw [hvstate]
      cases r.state <;> decide
    have hrun : w.Approved value.id := .inl ⟨r, hr, hdep.trans hended.rewrites.id.symm⟩
    exact decided_record_approved h hrun hstate elsewhere_writingBack
  | givesUp =>
    refine decided_of_less h hsame rfl ?_ hkeep
    intro id happ
    exact approved_of_setCall elsewhere_writingBack happ
  | starts _ _ _ hgoes =>
    exact decided_of_less h hsame rfl (fun id happ => approved_of_ran hgoes happ) hkeep
  | ends _ _ _ _ _ _ hgoes =>
    exact decided_of_less h hsame rfl (fun id happ => approved_of_ran hgoes happ) hkeep
  | removes =>
    refine decided_of_less h hsame rfl (fun _ happ => happ) ?_
    intro x hx
    obtain ⟨y, hy, rfl⟩ := mem_change hx
    left
    refine ⟨y, hy, ?_⟩
    split <;> exact ⟨rfl, rfl⟩

end Steps
end DeployWorld

open DeployWorld

/-- **A decision is final.**  In every run a deployment has one run at most.  Where no
decline is written over an approval and no approval over a decline, a deployment that a
call declined has no run, and one that has a run is not recorded as declined. -/
theorem decision_final {actions : List DeployAction} {w : DeployWorld}
    (hrun : runActions step .start actions = some w) :
    (w.runs.map fun r => r.deployment.id).Nodup ∧
    (EveryStep step (fun s a _ => s.DecidesOpen a) .start actions →
      (∀ id ∈ w.declined, ¬ w.HasRun id) ∧
      ∀ x ∈ w.list.items, w.HasRun x.id → x.state ≠ .declined) := by
  have hsounds : ∀ s a t, s.Sound → step s a = some t → True → t.Sound :=
    fun s a t hsound hstep _ => sound_step hsound hstep
  have hevery : EveryStep step (fun _ _ _ => True) .start actions :=
    EveryStep.of_forall (fun _ _ _ _ => trivial) _ _
  have hsound : w.Sound := runActions_invariant hsounds sound_start hevery hrun
  refine ⟨hsound.one_run, ?_⟩
  intro hopen
  have hpres : ∀ s a t, (s.Sound ∧ s.Decided) → step s a = some t →
      s.DecidesOpen a → t.Sound ∧ t.Decided := by
    rintro s a t ⟨hs, hd⟩ hstep hcond
    exact ⟨sound_step hs hstep, decided_steps hs hd hcond (steps_of_step hstep)⟩
  obtain ⟨_, hdecided⟩ := runActions_invariant hpres ⟨sound_start, decided_start⟩ hopen hrun
  refine ⟨?_, ?_⟩
  · intro id hid hasRun
    exact hdecided.declined id hid (.inl hasRun)
  · intro x hx hasRun hstate
    exact hdecided.waiting x hx (.inr hstate) (.inl hasRun)

/-- An administrator's approval, as far as its read. -/
private def approvalRead (call : Nat) : DeployAction :=
  .decides call ⟨"d1"⟩ ⟨"ann", none⟩ "2026-01-01T10:00:00Z" true none (.ok ()) (.ok [])

/-- Another's decline, as far as its read. -/
private def declineRead (call : Nat) : DeployAction :=
  .decides call ⟨"d1"⟩ ⟨"ben", none⟩ "2026-01-01T10:00:01Z" false (some "not today")
    (.ok ()) (.ok [])

private def approvalRuns : List DeployAction :=
  [.approves 0, .enqueues 0 ⟨"r1"⟩, .finishes 0]

/-- The decline reads once the approval is done. -/
private def oneAfterTheOther : List DeployAction :=
  [.requests 0 (shopInstall "d1") true none, approvalRead 0] ++ approvalRuns ++ [declineRead 1]

/-- Both read the record while it waits. -/
private def bothRead : List DeployAction :=
  [.requests 0 (shopInstall "d1") true none, approvalRead 0, declineRead 1] ++ approvalRuns ++
    [.declines 1]

private def decidesOpenCheck (w : DeployWorld) : DeployAction → Bool
  | .declines call =>
    match w.calls call with
    | .declining _ value =>
      (w.list.get value.id).any fun x => x.state ∈ [.awaitingApproval, .declined]
    | _ => true
  | .approves call =>
    match w.calls call with
    | .approving _ value =>
      (w.list.get value.id).any fun x => x.state ∉ [DeploymentState.declined]
    | _ => true
  | _ => true

private theorem decidesOpen_of_check {w : DeployWorld} {a : DeployAction}
    (h : decidesOpenCheck w a = true) : w.DecidesOpen a := by
  refine ⟨?_, ?_⟩
  · rintro call base value rfl hpc
    simp only [decidesOpenCheck, hpc, Option.any_eq_true, decide_eq_true_eq] at h
    exact h
  · rintro call base value rfl hpc
    simp only [decidesOpenCheck, hpc, Option.any_eq_true, decide_eq_true_eq] at h
    exact h

/-- A decline that comes after an approval is refused. -/
theorem decision_final_in_turn :
    ∃ w, runActions step .start oneAfterTheOther = some w ∧
      w.list.items.map Deployment.state = [.queued] ∧
      (∀ id ∈ w.declined, ¬ w.HasRun id) ∧
      ∀ x ∈ w.list.items, w.HasRun x.id → x.state ≠ .declined := by
  have hrun : runActions step .start oneAfterTheOther =
      some (reached step .start oneAfterTheOther) :=
    runActions_reached (by decide)
  have hpasses : passes step decidesOpenCheck .start oneAfterTheOther = true := by
    decide
  have hopen : EveryStep step (fun s a _ => s.DecidesOpen a) .start
      oneAfterTheOther := by
    refine EveryStep.of_passes ?_ hpasses
    intro s a _ h
    exact decidesOpen_of_check h
  exact ⟨_, hrun, by decide, (decision_final hrun).2 hopen⟩

/-- An approval and a decline that both read the record waiting are both answered. -/
theorem declined_while_queued :
    ¬ ∀ actions w, runActions step .start actions = some w →
      (∀ id ∈ w.declined, ¬ w.HasRun id) ∧
      ∀ x ∈ w.list.items, w.HasRun x.id → x.state ≠ .declined := by
  intro hclaim
  have hrun : runActions step .start bothRead = some (reached step .start bothRead) :=
    runActions_reached (by decide)
  obtain ⟨hdeclined, _⟩ := hclaim bothRead _ hrun
  have hmem : (⟨"d1"⟩ : Uuid) ∈ (reached step .start bothRead).declined := by
    decide
  have hids : (reached step .start bothRead).runs.map
      (fun r => r.deployment.id) = [⟨"d1"⟩] := by
    decide
  have hid : (⟨"d1"⟩ : Uuid) ∈ (reached step .start bothRead).runs.map
      (fun r => r.deployment.id) := by
    rw [hids]
    exact List.mem_cons_self
  obtain ⟨r, hr, hdep⟩ := List.mem_map.mp hid
  exact hdeclined _ hmem ⟨r, hr, hdep⟩
end Environments
end StudioWeb
