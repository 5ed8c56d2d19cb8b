import StudioWeb.Environments.DeployCalls

/-!
# What is so of deployments in every run

Every copy of a deployment, stored or held by a call, is one that was asked for, and has
its place, its action and what kind it is.  A deployment has one run, and a copy that
names a run names its own.
-/

namespace StudioWeb
namespace Environments

open Scheduler (Uuid RunState)
open LabelledRuns List Function

/-- What no call changes of a deployment. -/
def Deployment.identity (d : Deployment) :
    Uuid × (Uuid × Uuid × String) × DeploymentAction × Bool :=
  (d.id, d.place, d.action, d.preview.isSome)

def Known (asked : List Deployment) (d : Deployment) : Prop :=
  d.identity ∈ asked.map Deployment.identity

namespace DeployWorld

/-- A copy names its own run, and none before it was decided. -/
structure CopyOk (w : DeployWorld) (d : Deployment) : Prop where
  known : Known w.asked d
  run : ∀ run, d.runId = some run → ∃ r ∈ w.runs, r.id = run ∧ r.deployment.id = d.id
  undecided : d.state = .awaitingApproval ∨ d.state = .declined → d.runId = none
  succeeded : d.state = .succeeded → d.id ∈ w.succeeded.map Deployment.id

/-- A call writes what it read, but for the state. -/
structure Rewrites (w : DeployWorld) (base value : Deployment) : Prop where
  copy : w.CopyOk base
  written : w.CopyOk value
  id : value.id = base.id
  preview : value.preview = base.preview

/-- What a read writes back of a run that ended. -/
structure Ended (w : DeployWorld) (base value : Deployment) : Prop where
  rewrites : w.Rewrites base value
  going : base.state = .queued ∨ base.state = .running
  run : ∃ r ∈ w.runs, base.runId = some r.id ∧ r.deployment.id = base.id ∧
    r.state.isTerminal = true ∧ value.state = stateOf r.state

/-- What a request or an approval writes last. -/
structure Finishes (w : DeployWorld) (base value : Deployment) : Prop where
  rewrites : w.Rewrites base value
  state : base.state = .queued
  runId : base.runId = none
  outcome : (value.state = .queued ∧
      ∃ r ∈ w.runs, value.runId = some r.id ∧ r.deployment.id = value.id) ∨
    (value.state = .failed ∧ value.runId = none)

/-- Where a call may be. -/
def PcOk (w : DeployWorld) : CallPc → Prop
  | .idle => True
  | .approving base value =>
    w.Rewrites base value ∧ base.state = .awaitingApproval ∧ value.state = .queued ∧
      value.runId = none
  | .declining base value =>
    w.Rewrites base value ∧ base.state = .awaitingApproval ∧ value.state = .declined
  | .queueing d => w.CopyOk d ∧ d.state = .queued ∧ d.runId = none
  | .finishing base value => w.Finishes base value
  | .writingBack pending => ∀ p ∈ pending, w.Ended p.1 p.2

/-- The invariant. -/
structure Sound (w : DeployWorld) : Prop where
  asked : (w.asked.map Deployment.id).Nodup
  stored : (w.list.items.map Deployment.id).Nodup
  runs : (w.runs.map DeployRun.id).Nodup
  one_run : (w.runs.map fun r => r.deployment.id).Nodup
  copies : ∀ x ∈ w.list.items, w.CopyOk x
  runs_known : ∀ r ∈ w.runs, Known w.asked r.deployment
  calls : ∀ call, w.PcOk (w.calls call)
  succeeded : ∀ s, s ∈ w.succeeded ↔ ∃ r ∈ w.runs, r.deployment = s ∧ r.state = .succeeded
  succeeded_once : (w.succeeded.map Deployment.id).Nodup
  settled : ∀ id ∈ w.settled, id ∈ w.succeeded.map Deployment.id
  recorded : ∀ x ∈ w.list.items, x.state = .succeeded → x.id ∈ w.settled
  removed : ∀ id ∈ w.removed, id ∈ w.asked.map Deployment.id

section Facts

variable {w t : DeployWorld} {d e base value : Deployment}

theorem sound_start : start.Sound := by
  refine ⟨nodup_nil, nodup_nil, nodup_nil, nodup_nil, ?_, ?_, ?_, ?_,
    nodup_nil, ?_, ?_, ?_⟩
  · intro x hx
    cases hx
  · intro r hr
    cases hr
  · intro _
    trivial
  · intro s
    constructor
    · intro hs
      cases hs
    · rintro ⟨r, hr, _⟩
      cases hr
  · intro id hid
    cases hid
  · intro x hx
    cases hx
  · intro id hid
    cases hid

theorem Sound.identity_eq (h : w.Sound) (hd : Known w.asked d) (he : Known w.asked e)
    (hid : d.id = e.id) : d.identity = e.identity := by
  obtain ⟨o, ho, hod⟩ := mem_map.mp hd
  obtain ⟨o', ho', hoe⟩ := mem_map.mp he
  have hids : o.id = o'.id := by
    have h₁ : o.id = d.id := congrArg Prod.fst hod
    have h₂ : o'.id = e.id := congrArg Prod.fst hoe
    rw [h₁, h₂, hid]
  have ho : o = o' := inj_on_of_nodup_map h.asked ho ho' hids
  rw [← hod, ← hoe, ho]

theorem Sound.place_eq (h : w.Sound) (hd : Known w.asked d) (he : Known w.asked e)
    (hid : d.id = e.id) : d.place = e.place :=
  congrArg (fun i => i.2.1) (h.identity_eq hd he hid)

theorem Sound.run_eq (h : w.Sound) {r r' : DeployRun} (hr : r ∈ w.runs) (hr' : r' ∈ w.runs)
    (hid : r.deployment.id = r'.deployment.id) : r = r' :=
  inj_on_of_nodup_map h.one_run hr hr' hid

/-- What is asked for, run and ended stays so. -/
structure Grows (w t : DeployWorld) : Prop where
  asked : ∀ d ∈ w.asked, d ∈ t.asked
  runs : ∀ r ∈ w.runs, ∃ r' ∈ t.runs, r'.id = r.id ∧ r'.deployment = r.deployment ∧
    (r.state.isTerminal = true → r'.state = r.state)
  succeeded : ∀ d ∈ w.succeeded, d ∈ t.succeeded

theorem Grows.of_same (hasked : ∀ d ∈ w.asked, d ∈ t.asked) (hruns : t.runs = w.runs)
    (hsucceeded : t.succeeded = w.succeeded) : Grows w t := by
  refine ⟨hasked, ?_, ?_⟩
  · intro r hr
    exact ⟨r, hruns ▸ hr, rfl, rfl, fun _ => rfl⟩
  · intro d hd
    exact hsucceeded ▸ hd

theorem known_mono (h : Known w.asked d) (hgrows : Grows w t) : Known t.asked d := by
  obtain ⟨o, ho, hod⟩ := mem_map.mp h
  exact mem_map.mpr ⟨o, hgrows.asked o ho, hod⟩

theorem CopyOk.mono (h : w.CopyOk d) (hgrows : Grows w t) : t.CopyOk d := by
  refine ⟨known_mono h.known hgrows, ?_, h.undecided, ?_⟩
  · intro run hrun
    obtain ⟨r, hr, hid, hdep⟩ := h.run run hrun
    obtain ⟨r', hr', hid', hdep', _⟩ := hgrows.runs r hr
    exact ⟨r', hr', hid'.trans hid, hdep' ▸ hdep⟩
  · intro hstate
    obtain ⟨s, hs, hid⟩ := mem_map.mp (h.succeeded hstate)
    exact mem_map.mpr ⟨s, hgrows.succeeded s hs, hid⟩

theorem Rewrites.mono (h : w.Rewrites base value) (hgrows : Grows w t) : t.Rewrites base value :=
  ⟨h.copy.mono hgrows, h.written.mono hgrows, h.id, h.preview⟩

theorem Ended.mono (h : w.Ended base value) (hgrows : Grows w t) : t.Ended base value := by
  refine ⟨h.rewrites.mono hgrows, h.going, ?_⟩
  obtain ⟨r, hr, hrun, hdep, hterminal, hstate⟩ := h.run
  obtain ⟨r', hr', hid', hdep', hsame⟩ := hgrows.runs r hr
  refine ⟨r', hr', ?_, ?_, ?_, ?_⟩
  · rw [hid']
    exact hrun
  · rw [hdep']
    exact hdep
  · rw [hsame hterminal]
    exact hterminal
  · rw [hsame hterminal]
    exact hstate

theorem Finishes.mono (h : w.Finishes base value) (hgrows : Grows w t) : t.Finishes base value := by
  refine ⟨h.rewrites.mono hgrows, h.state, h.runId, ?_⟩
  refine h.outcome.imp_left ?_
  rintro ⟨hstate, r, hr, hrun, hdep⟩
  obtain ⟨r', hr', hid', hdep', _⟩ := hgrows.runs r hr
  exact ⟨hstate, r', hr', by rw [hid']; exact hrun, by rw [hdep']; exact hdep⟩

theorem PcOk.mono {pc : CallPc} (h : w.PcOk pc) (hgrows : Grows w t) : t.PcOk pc := by
  cases pc with
  | idle => trivial
  | approving => exact ⟨h.1.mono hgrows, h.2⟩
  | declining => exact ⟨h.1.mono hgrows, h.2⟩
  | queueing => exact ⟨h.1.mono hgrows, h.2⟩
  | finishing => exact Finishes.mono h hgrows
  | writingBack => exact fun p hp => (h p hp).mono hgrows

end Facts

section Steps

variable {w t : DeployWorld} {d base value : Deployment} {a : DeployAction}

theorem sound_record (h : w.Sound) (hvalue : w.CopyOk value) : (w.record value).Sound := by
  have hgrows : Grows w (w.record value) := Grows.of_same (fun _ hd => hd) rfl rfl
  refine ⟨h.asked, nodup_record h.stored, h.runs, h.one_run, ?_, h.runs_known, ?_,
    h.succeeded, h.succeeded_once, ?_, ?_, h.removed⟩
  · intro x hx
    rcases mem_record hx with rfl | ⟨hx, _⟩
    · exact hvalue.mono hgrows
    · exact (h.copies x hx).mono hgrows
  · intro call
    exact (h.calls call).mono hgrows
  · intro id hid
    simp only [record] at hid
    split at hid
    next hstate =>
      rcases mem_append.mp hid with hold | hnew
      · exact h.settled id hold
      · rw [mem_singleton.mp hnew]
        exact hvalue.succeeded hstate
    next => exact h.settled id hid
  · intro x hx hstate
    simp only [record]
    rcases mem_record hx with rfl | ⟨hx, _⟩
    · rw [if_pos hstate]
      exact mem_append_right _ (mem_singleton.mpr rfl)
    · have hsettled := h.recorded x hx hstate
      split
      · exact mem_append_left _ hsettled
      · exact hsettled

theorem sound_setCall (h : w.Sound) (call : Nat) {pc : CallPc} (hpc : w.PcOk pc) :
    (w.setCall call pc).Sound := by
  have hgrows : Grows w (w.setCall call pc) := Grows.of_same (fun _ hd => hd) rfl rfl
  refine ⟨h.asked, h.stored, h.runs, h.one_run, fun x hx => (h.copies x hx).mono hgrows,
    h.runs_known, ?_, h.succeeded, h.succeeded_once, h.settled, h.recorded, h.removed⟩
  intro c
  simp only [setCall, update_apply]
  split
  · exact hpc.mono hgrows
  · exact (h.calls c).mono hgrows

def asking (w : DeployWorld) (d : Deployment) : DeployWorld :=
  { w with asked := w.asked ++ [d] }

theorem grows_asking (w : DeployWorld) (d : Deployment) : Grows w (w.asking d) :=
  Grows.of_same (fun _ hd => mem_append_left _ hd) rfl rfl

theorem sound_asking (h : w.Sound) (hnew : d.id ∉ w.asked.map Deployment.id) :
    (w.asking d).Sound := by
  have hgrows := grows_asking w d
  refine ⟨?_, h.stored, h.runs, h.one_run, ?_, ?_, ?_, h.succeeded, h.succeeded_once,
    h.settled, h.recorded, ?_⟩
  · simp only [asking, map_append, map_cons, map_nil]
    refine nodup_append.mpr ⟨h.asked, nodup_singleton _, ?_⟩
    intro x hx y hy hxy
    rw [mem_singleton.mp hy] at hxy
    exact hnew (hxy ▸ hx)
  · intro x hx
    exact (h.copies x hx).mono hgrows
  · intro r hr
    exact known_mono (h.runs_known r hr) hgrows
  · intro call
    exact (h.calls call).mono hgrows
  · intro id hid
    simp only [asking, map_append]
    exact mem_append_left _ (h.removed id hid)

theorem copyOk_asked (hstate : d.state ≠ .succeeded) (hrun : d.runId = none) {o : Deployment}
    (hsame : d.identity = o.identity) : (w.asking o).CopyOk d := by
  refine ⟨?_, ?_, fun _ => hrun, fun h => absurd h hstate⟩
  · refine mem_map.mpr ⟨o, ?_, hsame.symm⟩
    exact mem_append_right _ (mem_singleton.mpr rfl)
  · intro run hid
    rw [hrun] at hid
    cases hid

theorem decision_cases
    {person : Person} {decidedAt : String} {approve : Bool} {reason : Option String}
    {environment : Except Refusal Unit} {config : Except Refusal (List String)} {made : Decision}
    (h : decision d person decidedAt approve reason environment config = .ok made) :
    d.state = .awaitingApproval ∧ ((∃ value, made = .approves value ∧ value.identity = d.identity ∧
          value.preview = d.preview ∧ value.runId = d.runId ∧ value.state = .queued) ∨
        ∃ value, made = .declines value ∧ value.identity = d.identity ∧
          value.preview = d.preview ∧ value.runId = d.runId ∧ value.state = .declined) := by
  unfold decision at h
  simp only at h
  split at h
  · cases h
  · split at h
    · cases h
    next hstate =>
      refine ⟨not_not.mp hstate, ?_⟩
      split at h
      · cases environment with
        | error => cases h
        | ok =>
          simp only [Except.bind] at h
          split at h
          · cases h
          · cases config with
            | error => cases h
            | ok =>
              cases h
              exact .inl ⟨_, rfl, rfl, rfl, rfl, rfl⟩
      · cases h
        exact .inr ⟨_, rfl, rfl, rfl, rfl, rfl⟩

theorem rewrites_decision (hbase : w.CopyOk base) (hstate : base.state = .awaitingApproval)
    (hidentity : value.identity = base.identity) (hpreview : value.preview = base.preview)
    (hrun : value.runId = base.runId) (hvalue : value.state ≠ .succeeded) :
    w.Rewrites base value ∧ value.runId = none := by
  have hnone : base.runId = none := hbase.undecided (.inl hstate)
  have hvrun : value.runId = none := hrun.trans hnone
  refine ⟨⟨hbase, ⟨?_, ?_, fun _ => hvrun, fun h => absurd h hvalue⟩,
    congrArg Prod.fst hidentity, hpreview⟩, hvrun⟩
  · unfold Known
    rw [hidentity]
    exact hbase.known
  · intro run hid
    rw [hvrun] at hid
    cases hid

theorem ended_of_hasEnded (h : w.Sound) {answered : Uuid → Bool} (hmem : d ∈ w.list.items)
    (hended : hasEnded w.runs answered d = true) : w.Ended d (refreshed w.runs answered d) := by
  unfold hasEnded at hended
  cases hrun : runOf w.runs answered d with
  | none =>
    rw [hrun] at hended
    cases hended
  | some r =>
    rw [hrun] at hended
    simp only [Option.any_some, Bool.and_eq_true, decide_eq_true_eq] at hended
    obtain ⟨hchanged, hterminal⟩ := hended
    have hvalue : refreshed w.runs answered d =
        { d with state := stateOf r.state, outcome := outcomeOf r } := by
      unfold refreshed
      rw [hrun]
      simp only [if_neg hchanged]
    unfold runOf at hrun
    split at hrun
    next hgoing =>
      obtain ⟨run, hid, hfound⟩ := Option.bind_eq_some_iff.mp hrun
      split at hfound
      · have hmemr : r ∈ w.runs := mem_of_find?_eq_some hfound
        have hrid : r.id = run := by simpa using find?_some hfound
        have hcopy := h.copies d hmem
        obtain ⟨r', hr', hrid', hdep'⟩ := hcopy.run run hid
        have hsame : r' = r := inj_on_of_nodup_map h.runs hr' hmemr (hrid'.trans hrid.symm)
        have hdep : r.deployment.id = d.id := hsame ▸ hdep'
        have hbaserun : d.runId = some r.id := by rw [hid, hrid]
        rw [hvalue]
        refine ⟨⟨hcopy, ⟨hcopy.known, hcopy.run, ?_, ?_⟩, rfl, rfl⟩, hgoing,
          r, hmemr, hbaserun, hdep, hterminal, rfl⟩
        · intro hundecided
          have hnever : ∀ s : RunState, ¬ (stateOf s = .awaitingApproval ∨
              stateOf s = .declined) := by
            intro s
            cases s <;> simp [stateOf]
          exact absurd hundecided (hnever _)
        · intro hstate
          have hsucceeded : r.state = .succeeded := by
            have hstate' : stateOf r.state = .succeeded := hstate
            cases hr : r.state <;> rw [hr] at hstate' <;> simp_all [stateOf]
          have hmems := (h.succeeded r.deployment).mpr ⟨r, hmemr, rfl, hsucceeded⟩
          exact mem_map.mpr ⟨r.deployment, hmems, hdep⟩
      · cases hfound
    · cases hrun

theorem enqueueRun_cases (runs : List DeployRun) (d : Deployment) (fresh : Uuid) :
    (∃ r ∈ runs, r.deployment.id = d.id ∧ enqueueRun runs d fresh = (runs, r.id)) ∨
    ((∀ r ∈ runs, r.deployment.id ≠ d.id) ∧
      enqueueRun runs d fresh = (runs ++ [⟨fresh, d, .queued, none, none⟩], fresh)) := by
  unfold enqueueRun
  cases hfound : runs.find? fun r => r.deployment.id = d.id with
  | some r =>
    exact .inl ⟨r, mem_of_find?_eq_some hfound, by simpa using find?_some hfound,
      rfl⟩
  | none =>
    refine .inr ⟨?_, rfl⟩
    intro r hr hid
    have := find?_eq_none.mp hfound r hr
    simp [hid] at this

def queued (w : DeployWorld) (d : Deployment) (fresh : Uuid) : DeployWorld :=
  { w with runs := (enqueueRun w.runs d fresh).1 }

theorem grows_queued (w : DeployWorld) (d : Deployment) (fresh : Uuid) :
    Grows w (w.queued d fresh) := by
  refine ⟨fun _ hd => hd, ?_, fun _ hd => hd⟩
  intro r hr
  refine ⟨r, ?_, rfl, rfl, fun _ => rfl⟩
  simp only [queued]
  rcases enqueueRun_cases w.runs d fresh with ⟨_, _, _, henqueue⟩ | ⟨_, henqueue⟩
  · rw [henqueue]
    exact hr
  · rw [henqueue]
    exact mem_append_left _ hr

theorem exists_run_queued (w : DeployWorld) (d : Deployment) (fresh : Uuid) :
    ∃ r ∈ (w.queued d fresh).runs, r.id = (enqueueRun w.runs d fresh).2 ∧
      r.deployment.id = d.id := by
  simp only [queued]
  rcases enqueueRun_cases w.runs d fresh with ⟨r, hr, hid, henqueue⟩ | ⟨_, henqueue⟩
  · rw [henqueue]
    exact ⟨r, hr, rfl, hid⟩
  · rw [henqueue]
    exact ⟨⟨fresh, d, .queued, none, none⟩,
      mem_append_right _ (mem_singleton.mpr rfl), rfl, rfl⟩

theorem sound_queued (h : w.Sound) (hd : w.CopyOk d) {fresh : Uuid}
    (hfresh : fresh ∉ w.runs.map DeployRun.id) : (w.queued d fresh).Sound := by
  have hgrows := grows_queued w d fresh
  rcases enqueueRun_cases w.runs d fresh with ⟨_, _, _, henqueue⟩ | ⟨hnone, henqueue⟩
  · have hsame : w.queued d fresh = w := by
      simp only [queued, henqueue]
    rw [hsame]
    exact h
  · have hruns : (w.queued d fresh).runs = w.runs ++ [⟨fresh, d, .queued, none, none⟩] := by
      simp only [queued, henqueue]
    refine ⟨h.asked, h.stored, ?_, ?_, ?_, ?_, ?_, ?_, h.succeeded_once, h.settled,
      h.recorded, h.removed⟩
    · rw [hruns, map_append]
      refine nodup_append.mpr ⟨h.runs, nodup_singleton _, ?_⟩
      intro x hx y hy hxy
      rw [mem_singleton.mp hy] at hxy
      have hxf : x = fresh := hxy
      exact hfresh (hxf ▸ hx)
    · rw [hruns, map_append]
      refine nodup_append.mpr ⟨h.one_run, nodup_singleton _, ?_⟩
      intro x hx y hy hxy
      obtain ⟨r, hr, hrx⟩ := mem_map.mp hx
      rw [mem_singleton.mp hy] at hxy
      exact hnone r hr (hrx.trans hxy)
    · intro x hx
      exact (h.copies x hx).mono hgrows
    · intro r hr
      rw [hruns] at hr
      rcases mem_append.mp hr with hold | hnew
      · exact h.runs_known r hold
      · rw [mem_singleton.mp hnew]
        exact hd.known
    · intro call
      exact (h.calls call).mono hgrows
    · intro s
      rw [hruns]
      refine (h.succeeded s).trans ?_
      constructor
      · rintro ⟨r, hr, hrest⟩
        exact ⟨r, mem_append_left _ hr, hrest⟩
      · rintro ⟨r, hr, hdep, hstate⟩
        rcases mem_append.mp hr with hold | hnew
        · exact ⟨r, hold, hdep, hstate⟩
        · rw [mem_singleton.mp hnew] at hstate
          cases hstate

structure GoesOn (w : DeployWorld) (r r' : DeployRun) : Prop where
  mem : r ∈ w.runs
  going : r.state.isTerminal = false
  id : r'.id = r.id
  deployment : r'.deployment = r.deployment

theorem mem_setRun {r' x : DeployRun} (h : x ∈ (w.setRun r').runs) :
    x = r' ∨ (x ∈ w.runs ∧ x.id ≠ r'.id) := by
  obtain ⟨y, hy, rfl⟩ := mem_map.mp h
  split
  next => exact .inl rfl
  next hid => exact .inr ⟨hy, hid⟩

theorem mem_setRun_of_ne {r' x : DeployRun} (hx : x ∈ w.runs) (hid : x.id ≠ r'.id) :
    x ∈ (w.setRun r').runs :=
  mem_map.mpr ⟨x, hx, if_neg hid⟩

variable {r r' : DeployRun} {id : Uuid}

theorem GoesOn.mem_setRun (h : w.GoesOn r r') : r' ∈ (w.setRun r').runs :=
  mem_map.mpr ⟨r, h.mem, if_pos h.id.symm⟩

/-- The world once a run went on, with its success if it ended in one. -/
def ran (w : DeployWorld) (r' : DeployRun) : DeployWorld :=
  { w.setRun r' with
    succeeded :=
      if r'.state = .succeeded then w.succeeded ++ [r'.deployment] else w.succeeded }

theorem succeeded_ran (w : DeployWorld) (r' : DeployRun) (s : Deployment) :
    s ∈ (w.ran r').succeeded ↔
      s ∈ w.succeeded ∨ (r'.state = .succeeded ∧ s = r'.deployment) := by
  simp only [ran]
  split
  next hstate => simp [hstate]
  next hstate => simp [hstate]

theorem GoesOn.grows (h : w.GoesOn r r') (hsound : w.Sound) :
    Grows w (w.ran r') := by
  refine ⟨fun _ hd => hd, ?_, ?_⟩
  · intro x hx
    by_cases hid : x.id = r'.id
    · have hxr : x = r := inj_on_of_nodup_map hsound.runs hx h.mem (hid.trans h.id)
      refine ⟨r', h.mem_setRun, hid.symm, ?_, ?_⟩
      · rw [hxr]
        exact h.deployment
      · intro hterminal
        rw [hxr, h.going] at hterminal
        cases hterminal
    · exact ⟨x, mem_setRun_of_ne hx hid, rfl, rfl, fun _ => rfl⟩
  · intro d hd
    exact (succeeded_ran w r' d).mpr (.inl hd)

theorem map_setRun {β : Type} (f : DeployRun → β) (h : w.GoesOn r r')
    (hsound : w.Sound) (hf : f r' = f r) : (w.setRun r').runs.map f = w.runs.map f := by
  simp only [setRun, map_map]
  apply map_congr_left
  intro x hx
  simp only [comp_apply]
  split
  next hid =>
    have hxr : x = r := inj_on_of_nodup_map hsound.runs hx h.mem (hid.trans h.id)
    rw [hxr, hf]
  next => rfl

theorem sound_ran (h : w.Sound) (hgoes : w.GoesOn r r') : (w.ran r').Sound := by
  have hgrows := hgoes.grows h
  have hnot : r.deployment ∉ w.succeeded := by
    intro hmem
    obtain ⟨x, hx, hdep, hstate⟩ := (h.succeeded _).mp hmem
    have hxr : x = r := h.run_eq hx hgoes.mem (by rw [hdep])
    have hgoing := hgoes.going
    rw [← hxr, hstate] at hgoing
    cases hgoing
  refine ⟨h.asked, h.stored, ?_, ?_, fun x hx => (h.copies x hx).mono hgrows, ?_, ?_, ?_, ?_,
    ?_, h.recorded, h.removed⟩
  · simp only [ran]
    rw [map_setRun DeployRun.id hgoes h hgoes.id]
    exact h.runs
  · simp only [ran]
    rw [map_setRun (fun r => r.deployment.id) hgoes h (by rw [hgoes.deployment])]
    exact h.one_run
  · intro x hx
    rcases mem_setRun hx with rfl | ⟨hx, _⟩
    · rw [hgoes.deployment]
      exact h.runs_known r hgoes.mem
    · exact h.runs_known x hx
  · intro call
    exact (h.calls call).mono hgrows
  · intro s
    rw [succeeded_ran]
    constructor
    · rintro (hold | ⟨hstate, rfl⟩)
      · obtain ⟨x, hx, hdep, hstate⟩ := (h.succeeded s).mp hold
        obtain ⟨x', hx', _, hdep', hsame⟩ := hgrows.runs x hx
        refine ⟨x', hx', hdep'.trans hdep, ?_⟩
        rw [hsame (by rw [hstate]; rfl), hstate]
      · exact ⟨r', hgoes.mem_setRun, rfl, hstate⟩
    · rintro ⟨x, hx, hdep, hstate⟩
      rcases mem_setRun hx with rfl | ⟨hx, _⟩
      · exact .inr ⟨hstate, hdep.symm⟩
      · exact .inl ((h.succeeded s).mpr ⟨x, hx, hdep, hstate⟩)
  · simp only [ran]
    split
    next _ =>
      rw [map_append]
      refine nodup_append.mpr ⟨h.succeeded_once, nodup_singleton _, ?_⟩
      intro x hx y hy hxy
      obtain ⟨s, hs, hsx⟩ := mem_map.mp hx
      obtain ⟨r₁, hr₁, hdep₁, _⟩ := (h.succeeded s).mp hs
      rw [mem_singleton.mp hy, ← hsx, hgoes.deployment] at hxy
      have hr : r₁ = r := h.run_eq hr₁ hgoes.mem (by rw [hdep₁]; exact hxy)
      apply hnot
      rw [← hr, hdep₁]
      exact hs
    next => exact h.succeeded_once
  · intro id hid
    obtain ⟨s, hs, hsid⟩ := mem_map.mp (h.settled id hid)
    exact mem_map.mpr ⟨s, (succeeded_ran w r' s).mpr (.inl hs), hsid⟩

theorem identity_markRemoval (removedAt : String) (error : Option String) (d : Deployment) :
    (markRemoval removedAt error d).identity = d.identity := by
  simp [Deployment.identity, markRemoval, Deployment.place]

def removing (w : DeployWorld) (id : Uuid) (removedAt : String) (error : Option String) :
    DeployWorld :=
  { w with
    list := w.list.change id (markRemoval removedAt error)
    removed := if error.isNone then w.removed ++ [id] else w.removed }

theorem mem_change {list : DeploymentList} {f : Deployment → Deployment} {x : Deployment}
    (h : x ∈ (list.change id f).items) : ∃ y ∈ list.items, x = if y.id = id then f y else y := by
  obtain ⟨y, hy, rfl⟩ := mem_map.mp h
  exact ⟨y, hy, rfl⟩

theorem sound_removing (h : w.Sound) (hid : id ∈ w.asked.map Deployment.id)
    (removedAt : String) (error : Option String) : (w.removing id removedAt error).Sound := by
  have hgrows : Grows w (w.removing id removedAt error) := Grows.of_same (fun _ hd => hd) rfl rfl
  have hmark : ∀ x, w.CopyOk x → w.CopyOk (markRemoval removedAt error x) := by
    intro x hx
    refine ⟨?_, hx.run, hx.undecided, hx.succeeded⟩
    unfold Known
    rw [identity_markRemoval]
    exact hx.known
  refine ⟨h.asked, ?_, h.runs, h.one_run, ?_, h.runs_known,
    fun call => (h.calls call).mono hgrows, h.succeeded, h.succeeded_once, h.settled, ?_, ?_⟩
  · have hids : (w.removing id removedAt error).list.items.map Deployment.id =
        w.list.items.map Deployment.id := by
      simp only [removing, DeploymentList.change, map_map]
      apply map_congr_left
      intro x _
      simp only [comp_apply]
      split <;> rfl
    rw [hids]
    exact h.stored
  · intro x hx
    obtain ⟨y, hy, rfl⟩ := mem_change hx
    have hcopy := (h.copies y hy)
    split
    · exact (hmark y hcopy).mono hgrows
    · exact hcopy.mono hgrows
  · intro x hx hstate
    obtain ⟨y, hy, rfl⟩ := mem_change hx
    have hsame : (if y.id = id then markRemoval removedAt error y else y).state = y.state ∧
        (if y.id = id then markRemoval removedAt error y else y).id = y.id := by
      split <;> exact ⟨rfl, rfl⟩
    rw [hsame.2]
    exact h.recorded y hy (hsame.1 ▸ hstate)
  · intro x hx
    simp only [removing] at hx
    split at hx
    · rcases mem_append.mp hx with hold | hnew
      · exact h.removed x hold
      · rw [mem_singleton.mp hnew]
        exact hid
    · exact h.removed x hx

inductive Steps (w : DeployWorld) : DeployAction → DeployWorld → Prop where
  | nothing (a : DeployAction) :
      Steps w a w
  | holds (call : Nat) (d : Deployment) (chart : Option String)
      (hnew : IsNew d) (hid : d.id ∉ w.asked.map Deployment.id) :
      Steps w (.requests call d true chart) ((w.asking d).record (d.held chart))
  | asks (call : Nat) (d : Deployment) (chart : Option String)
      (hnew : IsNew d) (hid : d.id ∉ w.asked.map Deployment.id)
      (hpc : w.calls call = .idle) :
      Steps w (.requests call d false chart) (((w.asking d).record d).setCall call (.queueing d))
  | decides (call : Nat) (id : Uuid) (person : Person) (decidedAt : String) (approve : Bool)
      (reason : Option String) (environment : Except Refusal Unit)
      (config : Except Refusal (List String)) (pc : CallPc)
      (hpc : w.calls call = .idle)
      (hmade : ∃ base value, base ∈ w.list.items ∧ base.state = .awaitingApproval ∧
        value.identity = base.identity ∧ value.preview = base.preview ∧
        value.runId = base.runId ∧
        ((pc = .approving base value ∧ value.state = .queued) ∨
          (pc = .declining base value ∧ value.state = .declined))) :
      Steps w (.decides call id person decidedAt approve reason environment config)
        (w.setCall call pc)
  | approves (call : Nat) (base value : Deployment)
      (hpc : w.calls call = .approving base value) :
      Steps w (.approves call) ((w.record value).setCall call (.queueing value))
  | declines (call : Nat) (base value : Deployment)
      (hpc : w.calls call = .declining base value) :
      Steps w (.declines call)
        { (w.record value).setCall call .idle with declined := w.declined ++ [value.id] }
  | enqueues (call : Nat) (fresh : Uuid) (d : Deployment)
      (hpc : w.calls call = .queueing d) (hfresh : fresh ∉ w.runs.map DeployRun.id) :
      Steps w (.enqueues call fresh) ((w.queued d fresh).setCall call
          (.finishing d { d with runId := some (enqueueRun w.runs d fresh).2 }))
  | enqueueFails (call : Nat) (why : String) (d : Deployment)
      (hpc : w.calls call = .queueing d) :
      Steps w (.enqueueFails call why)
        (w.setCall call (.finishing d { d with state := .failed, outcome := some why }))
  | finishes (call : Nat) (base value : Deployment)
      (hpc : w.calls call = .finishing base value) :
      Steps w (.finishes call) ((w.record value).setCall call .idle)
  | reads (call : Nat) (answered : Uuid → Bool) (project environment : Option Uuid)
      (hpc : w.calls call = .idle) :
      Steps w (.reads call answered project environment) (w.setCall call
          (.writingBack (endedSince w.list w.runs answered project environment)))
  | wrote (call : Nat) (stored : Bool)
      (hpc : w.calls call = .writingBack []) :
      Steps w (.writesBack call stored) (w.setCall call .idle)
  | writesBack (call : Nat) (base value : Deployment) (rest : List (Deployment × Deployment))
      (hpc : w.calls call = .writingBack ((base, value) :: rest)) :
      Steps w (.writesBack call true) ((w.record value).setCall call (.writingBack rest))
  | givesUp (call : Nat) (base value : Deployment) (rest : List (Deployment × Deployment))
      (hpc : w.calls call = .writingBack ((base, value) :: rest)) :
      Steps w (.writesBack call false) (w.setCall call (.writingBack rest))
  | starts (run : Uuid) (r r' : DeployRun)
      (hgoes : w.GoesOn r r') (hstate : r'.state = .running) :
      Steps w (.starts run) (w.ran r')
  | ends (run : Uuid) (state : RunState) (lastError output : Option String)
      (r r' : DeployRun)
      (hgoes : w.GoesOn r r') (hstate : r'.state = state) (hterminal : state.isTerminal = true) :
      Steps w (.ends run state lastError output) (w.ran r')
  | removes (id : Uuid) (removedAt : String) (error : Option String) (d : Deployment)
      (hmem : d ∈ w.list.items) (hid : d.id = id) (hlive : d.isLivePreview = true) :
      Steps w (.removes id removedAt error) (w.removing id removedAt error)

theorem mem_of_get {list : DeploymentList} (h : list.get id = some d) :
    d ∈ list.items ∧ d.id = id :=
  ⟨mem_of_find?_eq_some h, by simpa using find?_some h⟩

theorem mem_of_findRun {run : Uuid} {r : DeployRun} (h : w.findRun run = some r) :
    r ∈ w.runs ∧ r.id = run :=
  ⟨mem_of_find?_eq_some h, by simpa using find?_some h⟩

theorem steps_of_step (hstep : w.step a = some t) : Steps w a t := by
  cases a with
  | requests call d isProtected chart =>
    simp only [step] at hstep
    split at hstep
    next hpc =>
      split_ifs at hstep with hnew hprotected
      · subst hprotected
        split at hstep
        · cases hstep
          exact .nothing _
        · cases hstep
          exact .holds call d chart hnew.1 hnew.2
      · cases isProtected with
        | true => exact absurd rfl hprotected
        | false =>
          cases hstep
          exact .asks call d chart hnew.1 hnew.2 hpc
    · cases hstep
  | decides call id person decidedAt approve reason environment config =>
    simp only [step] at hstep
    split at hstep
    next hpc =>
      split at hstep
      · cases hstep
        exact .nothing _
      next d hget =>
        split at hstep
        · cases hstep
          exact .nothing _
        next value hmade =>
          cases hstep
          obtain ⟨hstate, h | h⟩ := decision_cases hmade
          · obtain ⟨v, hv, hidentity, hpreview, hrun, hvalue⟩ := h
            cases hv
            exact .decides call id person decidedAt approve reason environment config _ hpc
              ⟨d, value, (mem_of_get hget).1, hstate, hidentity, hpreview, hrun, .inl ⟨rfl, hvalue⟩⟩
          · obtain ⟨v, hv, _⟩ := h
            cases hv
        next value hmade =>
          cases hstep
          obtain ⟨hstate, h | h⟩ := decision_cases hmade
          · obtain ⟨v, hv, _⟩ := h
            cases hv
          · obtain ⟨v, hv, hidentity, hpreview, hrun, hvalue⟩ := h
            cases hv
            exact .decides call id person decidedAt approve reason environment config _ hpc
              ⟨d, value, (mem_of_get hget).1, hstate, hidentity, hpreview, hrun, .inr ⟨rfl, hvalue⟩⟩
    · cases hstep
  | approves call =>
    simp only [step] at hstep
    split at hstep
    next base value hpc =>
      cases hstep
      exact .approves call base value hpc
    · cases hstep
  | declines call =>
    simp only [step] at hstep
    split at hstep
    next base value hpc =>
      cases hstep
      exact .declines call base value hpc
    · cases hstep
  | enqueues call fresh =>
    simp only [step] at hstep
    split at hstep
    next d hpc =>
      split_ifs at hstep with hfresh
      cases hstep
      exact .enqueues call fresh d hpc hfresh
    · cases hstep
  | enqueueFails call why =>
    simp only [step] at hstep
    split at hstep
    next d hpc =>
      cases hstep
      exact .enqueueFails call why d hpc
    · cases hstep
  | finishes call =>
    simp only [step] at hstep
    split at hstep
    next base value hpc =>
      cases hstep
      exact .finishes call base value hpc
    · cases hstep
  | reads call answered project environment =>
    simp only [step] at hstep
    split at hstep
    next hpc =>
      cases hstep
      exact .reads call answered project environment hpc
    · cases hstep
  | writesBack call stored =>
    simp only [step] at hstep
    split at hstep
    next hpc =>
      cases hstep
      exact .wrote call stored hpc
    next base value rest hpc =>
      cases stored with
      | true =>
        cases hstep
        exact .writesBack call base value rest hpc
      | false =>
        cases hstep
        exact .givesUp call base value rest hpc
    · cases hstep
  | starts run =>
    simp only [step] at hstep
    split at hstep
    next r hfind =>
      split_ifs at hstep with hnext
      cases hstep
      have hgoes : w.GoesOn r { r with state := .running } :=
        ⟨(mem_of_findRun hfind).1, by rw [hnext.1]; rfl, rfl, rfl⟩
      exact .starts run r _ hgoes rfl
    · cases hstep
  | ends run state lastError output =>
    simp only [step] at hstep
    split at hstep
    next r hfind =>
      split at hstep
      next hnext =>
        cases hstep
        have hgoes : w.GoesOn r
            { r with state := state, lastError := lastError, output := output } :=
          ⟨(mem_of_findRun hfind).1, hnext.2.1, rfl, rfl⟩
        exact .ends run state lastError output r _ hgoes rfl hnext.1
      next => cases hstep
    · cases hstep
  | removes id removedAt error =>
    simp only [step] at hstep
    split at hstep
    next d hget =>
      split at hstep
      next hlive =>
        cases hstep
        exact .removes id removedAt error d (mem_of_get hget).1 (mem_of_get hget).2 hlive
      next => cases hstep
    · cases hstep

theorem copyOk_queued (h : w.CopyOk d) (state : DeploymentState) (run : Option Uuid)
    (outcome : Option String) (hstate : state = .queued ∨ state = .failed)
    (hrun : ∀ id, run = some id → ∃ r ∈ w.runs, r.id = id ∧ r.deployment.id = d.id) :
    w.CopyOk { d with state := state, runId := run, outcome := outcome } := by
  refine ⟨h.known, hrun, ?_, ?_⟩
  · intro hundecided
    rcases hstate with rfl | rfl
    · rcases hundecided with h | h <;> cases h
    · rcases hundecided with h | h <;> cases h
  · intro hsucceeded
    rcases hstate with rfl | rfl <;> cases hsucceeded

theorem sound_steps (h : w.Sound) (hsteps : Steps w a t) : t.Sound := by
  cases hsteps with
  | nothing => exact h
  | holds _ d chart hnew hid =>
    apply sound_record (sound_asking h hid)
    have hrun : (d.held chart).runId = none := hnew.runId
    refine copyOk_asked ?_ hrun rfl
    intro hstate
    cases hstate
  | asks _ d _ hnew hid =>
    have hstate : d.state ≠ .succeeded := by
      rw [hnew.state]
      intro hstate
      cases hstate
    have hcopy : (w.asking d).CopyOk d := copyOk_asked hstate hnew.runId rfl
    have hrecord := sound_record (sound_asking h hid) hcopy
    apply sound_setCall hrecord
    have hgrows : Grows (w.asking d) ((w.asking d).record d) :=
      Grows.of_same (fun _ hd => hd) rfl rfl
    exact ⟨hcopy.mono hgrows, hnew.state, hnew.runId⟩
  | decides _ _ _ _ _ _ _ _ _ _ hmade =>
    obtain ⟨base, value, hbase, hstate, hidentity, hpreview, hrun, hcase⟩ := hmade
    have hvalue : value.state ≠ .succeeded := by
      rcases hcase with ⟨_, hv⟩ | ⟨_, hv⟩
      · rw [hv]
        intro hs
        cases hs
      · rw [hv]
        intro hs
        cases hs
    obtain ⟨hrewrites, hnone⟩ :=
      rewrites_decision (h.copies base hbase) hstate hidentity hpreview hrun hvalue
    apply sound_setCall h
    rcases hcase with ⟨rfl, hv⟩ | ⟨rfl, hv⟩
    · exact ⟨hrewrites, hstate, hv, hnone⟩
    · exact ⟨hrewrites, hstate, hv⟩
  | approves call _ value hpc =>
    have hok := h.calls call
    rw [hpc] at hok
    obtain ⟨hrewrites, _, hstate, hrun⟩ := hok
    apply sound_setCall (sound_record h hrewrites.written)
    have hgrows : Grows w (w.record value) := Grows.of_same (fun _ hd => hd) rfl rfl
    exact ⟨hrewrites.written.mono hgrows, hstate, hrun⟩
  | declines call _ value hpc =>
    have hok := h.calls call
    rw [hpc] at hok
    obtain ⟨hrewrites, _, _⟩ := hok
    have hafter : ((w.record value).setCall call .idle).Sound :=
      sound_setCall (sound_record h hrewrites.written) call trivial
    have hgrows : Grows ((w.record value).setCall call .idle)
        { (w.record value).setCall call .idle with
          declined := w.declined ++ [value.id] } :=
      Grows.of_same (fun _ hd => hd) rfl rfl
    exact ⟨hafter.asked, hafter.stored, hafter.runs, hafter.one_run,
      fun x hx => (hafter.copies x hx).mono hgrows, hafter.runs_known,
      fun c => (hafter.calls c).mono hgrows, hafter.succeeded, hafter.succeeded_once,
      hafter.settled, hafter.recorded, hafter.removed⟩
  | enqueues call fresh d hpc hfresh =>
    have hok := h.calls call
    rw [hpc] at hok
    obtain ⟨hcopy, hstate, hrun⟩ := hok
    have hgrows := grows_queued w d fresh
    obtain ⟨r, hr, hrid, hdep⟩ := exists_run_queued w d fresh
    apply sound_setCall (sound_queued h hcopy hfresh)
    have hcopy' := hcopy.mono hgrows
    refine ⟨⟨hcopy', ?_, rfl, rfl⟩, hstate, hrun, .inl ⟨hstate, r, hr, ?_, hdep⟩⟩
    · have hown : ∀ id, some r.id = some id →
          ∃ r ∈ (w.queued d fresh).runs, r.id = id ∧ r.deployment.id = d.id := by
        intro id hid
        cases hid
        exact ⟨r, hr, rfl, hdep⟩
      have hwritten := copyOk_queued hcopy' d.state (some r.id) d.outcome (.inl hstate) hown
      rw [hrid] at hwritten
      exact hwritten
    · rw [hrid]
  | enqueueFails call why d hpc =>
    have hok := h.calls call
    rw [hpc] at hok
    obtain ⟨hcopy, hstate, hrun⟩ := hok
    apply sound_setCall h
    refine ⟨⟨hcopy, ?_, rfl, rfl⟩, hstate, hrun, .inr ⟨rfl, hrun⟩⟩
    exact copyOk_queued hcopy .failed d.runId (some why) (.inr rfl) hcopy.run
  | finishes call base value hpc =>
    have hok := h.calls call
    rw [hpc] at hok
    have hfinishes : w.Finishes base value := hok
    exact sound_setCall (sound_record h hfinishes.rewrites.written) call trivial
  | reads =>
    apply sound_setCall h
    intro p hp
    obtain ⟨d, hd, rfl⟩ := mem_map.mp hp
    obtain ⟨hmem, hended⟩ := mem_filter.mp hd
    exact ended_of_hasEnded h (mem_filter.mp hmem).1 hended
  | wrote call =>
    exact sound_setCall h call trivial
  | writesBack call base value _ hpc =>
    have hok := h.calls call
    rw [hpc] at hok
    have hended : w.Ended base value := hok (base, value) mem_cons_self
    apply sound_setCall (sound_record h hended.rewrites.written)
    have hgrows : Grows w (w.record value) := Grows.of_same (fun _ hd => hd) rfl rfl
    intro p hp
    exact (hok p (mem_cons_of_mem _ hp)).mono hgrows
  | givesUp call _ _ _ hpc =>
    have hok := h.calls call
    rw [hpc] at hok
    apply sound_setCall h
    intro p hp
    exact hok p (mem_cons_of_mem _ hp)
  | starts _ _ _ hgoes =>
    exact sound_ran h hgoes
  | ends _ _ _ _ _ _ hgoes =>
    exact sound_ran h hgoes
  | removes _ _ _ d hmem hid =>
    apply sound_removing h
    obtain ⟨o, ho, hsame⟩ := mem_map.mp (h.copies d hmem).known
    have hoid : o.id = d.id := congrArg Prod.fst hsame
    exact mem_map.mpr ⟨o, ho, hoid.trans hid⟩

theorem sound_step (h : w.Sound) (hstep : w.step a = some t) : t.Sound :=
  sound_steps h (steps_of_step hstep)

end Steps
end DeployWorld
end Environments
end StudioWeb
