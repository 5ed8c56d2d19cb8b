import StudioWeb.Scheduler.ScheduleSystem

/-!
# The concurrency policy `forbid`

Under `forbid` no run is enqueued while an earlier one is going.  `fire` judges
this against the run that the row it was given names, the same run for every
instant of its plan, and stores only the last run it created.

So the policy holds as long as a tick plans one instant and a tick that created
a run also gets to write the row.  A backfill of two instants enqueues the
second while the first has not even started, and a tick that stops after an
enqueue leaves a run that no later tick looks at.
-/

namespace StudioWeb
namespace Scheduler

open Rust CivilTime LabelledRuns List

/-- The instant after the due one has not come yet. -/
def NextInstantAhead (row : Schedule) (now : OffsetDateTime) : Prop :=
  ∃ expression next, Expression.parse row.expressionKind row.expression = .ok expression ∧
    expression.nextAfter row.nextRunAt (some row.nextRunAt) = .ok next ∧
    now < next

instance (row : Schedule) (now : OffsetDateTime) : Decidable (NextInstantAhead row now) :=
  match hparse : Expression.parse row.expressionKind row.expression with
  | .error _ => isFalse (by
      rintro ⟨expression, next, h, _⟩
      rw [hparse] at h
      cases h)
  | .ok expression =>
    match hnext : expression.nextAfter row.nextRunAt (some row.nextRunAt) with
    | .error _ => isFalse (by
        rintro ⟨expression', next, h, h', _⟩
        rw [hparse] at h
        cases h
        rw [hnext] at h'
        cases h')
    | .ok next =>
      if hlt : now < next then
        isTrue ⟨expression, next, hparse, hnext, hlt⟩
      else
        isFalse (by
          rintro ⟨expression', next', h, h', hlt'⟩
          rw [hparse] at h
          cases h
          rw [hnext] at h'
          cases h'
          exact hlt hlt')

/-- A tick owes one instant: the policy keeps one, the cap keeps one, or one has
come due. -/
def OneInstant (row : Schedule) (now : OffsetDateTime) : Prop :=
  MissedPolicy.parse row.missedPolicy ≠ .ok .backfill ∨
    row.maxCatchUpRuns ≤ 1 ∨ NextInstantAhead row now

instance (row : Schedule) (now : OffsetDateTime) : Decidable (OneInstant row now) :=
  inferInstanceAs (Decidable (_ ∨ _ ∨ _))

theorem walk_eq_nil_iff {expression : Expression} {now dueAt : OffsetDateTime} {room : Nat}
    {later : List OffsetDateTime} (h : walk expression now (room + 1) dueAt = .ok later) :
    later = [] ↔
      ∃ next, expression.nextAfter dueAt (some dueAt) = .ok next ∧ now < next := by
  obtain ⟨next, hnext, h⟩ := bind_eq_ok_iff.mp h
  split_ifs at h with hafter
  · cases h
    exact ⟨fun _ => ⟨next, hnext, hafter⟩, fun _ => rfl⟩
  · obtain ⟨tail, _, h⟩ := bind_eq_ok_iff.mp h
    cases h
    constructor
    · intro hnil
      cases hnil
    · rintro ⟨next', hnext', hafter'⟩
      rw [hnext] at hnext'
      cases hnext'
      exact absurd hafter' hafter

theorem choose_length (policy : MissedPolicy) (maxCatchUpRuns : Int)
    (missed : List OffsetDateTime) (dueAt : OffsetDateTime) :
    (choose policy maxCatchUpRuns missed dueAt).1.length =
      match policy with
      | .backfill => min missed.length (max maxCatchUpRuns 1).toNat
      | _ => 1 := by
  cases policy with
  | skip => rfl
  | catchUp => rfl
  | backfill =>
    simp only [choose]
    split_ifs with hcap
    · exact (Nat.min_eq_left hcap).symm
    · simp only [length_drop]
      omega

/-- **When a tick plans a single instant.** -/
theorem beginFire_single_iff {row : Schedule} {now : OffsetDateTime} {f : Firing}
    (h : beginFire row now = .ok f) : f.remaining.length ≤ 1 ↔ OneInstant row now := by
  obtain ⟨policy, firings, hexpression, hpolicy, _, hplan, _, hremaining, _, _⟩ := beginFire_eq_ok h
  obtain ⟨later, hwalk, _, hscheduled, _⟩ := plan_eq_ok_iff.mp hplan
  rw [hremaining, hscheduled, choose_length]
  have hahead : later = [] ↔ NextInstantAhead row now := by
    rw [walk_eq_nil_iff hwalk]
    constructor
    · rintro ⟨next, hnext, hlt⟩
      exact ⟨f.expression, next, hexpression, hnext, hlt⟩
    · rintro ⟨expression, next, hparse, hnext, hlt⟩
      rw [hexpression] at hparse
      cases hparse
      exact ⟨next, hnext, hlt⟩
  unfold OneInstant
  rw [hpolicy, ← hahead]
  cases policy with
  | skip => simp
  | catchUp => simp
  | backfill =>
    have hlen : later = [] ↔ later.length = 0 := length_eq_zero_iff.symm
    simp only [length_cons, ne_eq, not_true_eq_false, false_or, hlen]
    omega

/-- Every tick finds the row with the policy `forbid`. -/
def ForbidTick (w : World) : Action → Prop
  | .tickBegins _ => Concurrency.parse w.row.concurrency = .ok .forbid
  | _ => True

/-- A tick owes one instant, and a tick that created a run does not stop before
its write. -/
def OneRunTick (w : World) : Action → Prop
  | .tickBegins now => OneInstant w.row now
  | .tickFails => ∀ f, w.firing = some f → f.created = []
  | _ => True

/-- A step that enqueues a new run finds every earlier one finished. -/
def NoOverlap (w : World) (_ : Action) (t : World) : Prop :=
  t.fired ≠ w.fired → ∀ id ∈ w.fired, ¬ w.runs.Unfinished id

instance (w : World) : ∀ a, Decidable (ForbidTick w a)
  | .tickBegins _ =>
    inferInstanceAs (Decidable (Concurrency.parse w.row.concurrency = .ok .forbid))
  | .tickFires _ | .tickFails | .tickEnds | .patchReads _ | .patchWrites _
  | .patchFails | .runBecomes _ _ | .runPruned _ => isTrue trivial

instance (w : World) : ∀ a, Decidable (OneRunTick w a)
  | .tickBegins now => inferInstanceAs (Decidable (OneInstant w.row now))
  | .tickFails =>
    match hfiring : w.firing with
    | none => isTrue (fun f hf => by rw [hfiring] at hf; cases hf)
    | some f =>
      decidable_of_iff (f.created = []) (by simp [OneRunTick, hfiring])
  | .tickFires _ | .tickEnds | .patchReads _ | .patchWrites _
  | .patchFails | .runBecomes _ _ | .runPruned _ => isTrue trivial

instance (w : World) (a : Action) (t : World) : Decidable (NoOverlap w a t) :=
  inferInstanceAs (Decidable (t.fired ≠ w.fired → ∀ id ∈ w.fired, ¬ w.runs.Unfinished id))

/-- The run the next firing is judged against. -/
def World.answering (w : World) : Option Uuid :=
  match w.firing with
  | none => w.row.lastRunId
  | some f => f.created.getLast?.or f.schedule.lastRunId

/-- What holds between the steps of a forbidden schedule: a run that is going is
the one the next firing is judged against. -/
structure ForbidInvariant (d : Deployment) (w : World) : Prop where
  tenant : ∀ r ∈ w.runs.rows, r.id ∈ w.fired → r.tenantId = d.owner
  forbids : ∀ f, w.firing = some f → f.concurrency = .forbid
  single : ∀ f, w.firing = some f → f.remaining.length + f.created.length ≤ 1
  lastRun : ∀ f, w.firing = some f → f.schedule.lastRunId = w.row.lastRunId
  tracked : ∀ id ∈ w.fired, w.runs.Unfinished id → w.answering = some id

section Preservation

variable {d : Deployment} {w t : World}

section

variable (hinv : ForbidInvariant d w)
include hinv

theorem finished_of_unblocked {f : Firing}
    (hfiring : w.firing = some f) (hremaining : f.remaining ≠ [])
    (hunblocked : f.unfinished d.owner w.runs = none) : ∀ id ∈ w.fired, ¬ w.runs.Unfinished id := by
  intro id hid hgoing
  have hcreated : f.created = [] := by
    have hsingle := hinv.single f hfiring
    have hpos := length_pos_iff.mpr hremaining
    exact length_eq_zero_iff.mp (by omega)
  have hlast : f.schedule.lastRunId = some id := by
    have htracked := hinv.tracked id hid hgoing
    rw [World.answering, hfiring] at htracked
    simpa [hcreated] using htracked
  obtain ⟨r, hmem, rfl, hstate⟩ := hgoing
  have hrun := run_of_mem hmem (hinv.tenant r hmem hid)
  simp [Firing.unfinished, hlast, hrun, hstate] at hunblocked

theorem ForbidInvariant.of_same_firing (hfiring : t.firing = w.firing) (hfired : t.fired = w.fired)
    (hrow : t.row.lastRunId = w.row.lastRunId)
    (hrows : ∀ r ∈ t.runs.rows, ∃ s ∈ w.runs.rows, s.id = r.id ∧ s.tenantId = r.tenantId)
    (hgoing : ∀ id, t.runs.Unfinished id → w.runs.Unfinished id) :
    ForbidInvariant d t where
  tenant := by
    intro r hmem hid
    obtain ⟨s, hs, hsid, htenant⟩ := hrows r hmem
    rw [← htenant]
    exact hinv.tenant s hs (by rw [hsid, ← hfired]; exact hid)
  forbids := by
    rw [hfiring]
    exact hinv.forbids
  single := by
    rw [hfiring]
    exact hinv.single
  lastRun := by
    rw [hfiring, hrow]
    exact hinv.lastRun
  tracked := by
    intro id hid hun
    rw [World.answering, hfiring, hrow, ← World.answering]
    exact hinv.tracked id (hfired ▸ hid) (hgoing id hun)

theorem ForbidInvariant.of_ended
    (hidle : t.firing = none) (hfired : t.fired = w.fired) (hruns : t.runs = w.runs)
    (hanswering : t.row.lastRunId = w.answering) :
    ForbidInvariant d t where
  tenant := by
    rw [hruns, hfired]
    exact hinv.tenant
  forbids := by
    intro f hf
    rw [hidle] at hf
    cases hf
  single := by
    intro f hf
    rw [hidle] at hf
    cases hf
  lastRun := by
    intro f hf
    rw [hidle] at hf
    cases hf
  tracked := by
    intro id hid hgoing
    rw [World.answering, hidle]
    dsimp only
    rw [hanswering]
    rw [hfired] at hid
    rw [hruns] at hgoing
    exact hinv.tracked id hid hgoing

theorem answering_of_created_nil {f : Firing}
    (hfiring : w.firing = some f) (hcreated : f.created = []) : w.row.lastRunId = w.answering := by
  rw [World.answering, hfiring]
  simp [hcreated, hinv.lastRun f hfiring]

theorem tickBegins_forbid {now : OffsetDateTime}
    (hforbid : Concurrency.parse w.row.concurrency = .ok .forbid) (hone : OneInstant w.row now)
    (h : w.tickBegins now = some t) : ForbidInvariant d t := by
  obtain ⟨hidle, rfl | ⟨f, hbegin, rfl⟩⟩ := tickBegins_cases h
  · exact hinv
  · obtain ⟨_, _, _, _, hconcurrency, _, hschedule, _, _, hcreated⟩ :=
      beginFire_eq_ok hbegin
    have hsingle := (beginFire_single_iff hbegin).mpr hone
    have hanswer : ∀ id, w.row.lastRunId = some id →
        f.created.getLast?.or f.schedule.lastRunId = some id := by
      intro id hid
      simpa [hcreated, hschedule] using hid
    refine ⟨hinv.tenant, ?_, ?_, ?_, ?_⟩
    · rintro g ⟨⟩
      rw [hforbid] at hconcurrency
      exact (Except.ok.inj hconcurrency).symm
    · rintro g ⟨⟩
      simpa [hcreated] using hsingle
    · rintro g ⟨⟩
      rw [hschedule]
    · intro id hid hgoing
      have htracked := hinv.tracked id hid hgoing
      rw [World.answering, hidle] at htracked
      exact hanswer id htracked

/-- One round of the loop keeps the invariant, and enqueues only when every run
before has ended. -/
theorem tickFires_forbid {fresh : Uuid} (h : w.tickFires d fresh = some t) :
    ForbidInvariant d t ∧ NoOverlap w (.tickFires fresh) t := by
  obtain ⟨f, hfiring, hremaining, hcases⟩ := tickFires_cases h
  have hsingle := hinv.single f hfiring
  have hpos := length_pos_iff.mpr hremaining
  have hcreated : f.created = [] := length_eq_zero_iff.mp (by omega)
  have hanswer := answering_of_created_nil hinv hfiring hcreated
  rcases hcases with rfl | ⟨runs, f', hfire, rfl⟩
  · exact ⟨hinv.of_ended rfl rfl rfl hanswer, fun hne => absurd rfl hne⟩
  · obtain ⟨scheduledFor, rest, hcons⟩ := exists_cons_of_ne_nil hremaining
    have hrest : rest = [] := by
      rw [hcons, length_cons] at hsingle
      exact length_eq_zero_iff.mp (by omega)
    subst hrest
    rcases fireInstant_forbid (hinv.forbids f hfiring) hcons hfire with
      ⟨_, rfl, rfl⟩ | ⟨hunblocked, created, henqueue, rfl⟩
    · -- the instant is skipped: the table and the answer stay
      have hadded : w.runs.added w.runs = [] := by
        simp [RunTable.added]
      rw [hadded, append_nil]
      refine ⟨⟨hinv.tenant, ?_, ?_, ?_, ?_⟩, fun hne => absurd rfl hne⟩
      · rintro g ⟨⟩
        exact hinv.forbids f hfiring
      · rintro g ⟨⟩
        simp [hcreated]
      · rintro g ⟨⟩
        exact hinv.lastRun f hfiring
      · intro id hid hgoing
        have htracked := hinv.tracked id hid hgoing
        rw [World.answering, hfiring] at htracked
        exact htracked
    · have hfinished :=
        finished_of_unblocked hinv hfiring hremaining hunblocked
      refine ⟨?_, fun _ => hfinished⟩
      have hshape : ∀ {added : List Uuid},
          (∀ r ∈ runs.rows, r.id ∈ w.fired ++ added → r.tenantId = d.owner) →
          (∀ id ∈ w.fired ++ added, runs.Unfinished id → id = created) → ForbidInvariant d
            { w with
              runs := runs
              firing := some { f with remaining := [], created := f.created ++ [created] }
              fired := w.fired ++ added } := by
        intro added htenant htracked
        refine ⟨htenant, ?_, ?_, ?_, ?_⟩
        · rintro g ⟨⟩
          exact hinv.forbids f hfiring
        · rintro g ⟨⟩
          simp [hcreated]
        · rintro g ⟨⟩
          exact hinv.lastRun f hfiring
        · intro id hid hgoing
          simp [World.answering, htracked id hid hgoing]
      rcases enqueue_cases henqueue with rfl | ⟨hrows, rfl⟩
      · -- the key is known: no new run, and every fired run has ended
        have hadded : w.runs.added w.runs = [] := by
          simp [RunTable.added]
        apply hshape
        · rw [hadded, append_nil]
          exact hinv.tenant
        · intro id hid hgoing
          rw [hadded, append_nil] at hid
          exact absurd hgoing (hfinished id hid)
      · have hadded : w.runs.added runs = [created] := by
          simp [RunTable.added, hrows, NewRun.row]
        have hnew : ∀ r ∈ w.runs.rows, r.id ≠ created := by
          intro r hmem heq
          have hnodup := runs.ids_nodup
          rw [hrows, map_append, nodup_append] at hnodup
          exact hnodup.2.2 r.id (mem_map_of_mem hmem) created (by simp [NewRun.row]) heq
        apply hshape
        · intro r hmem hid
          rw [hadded] at hid
          rw [hrows] at hmem
          rcases mem_append.mp hmem with hold | hrow
          · rcases mem_append.mp hid with hid | hid
            · exact hinv.tenant r hold hid
            · exact absurd (mem_singleton.mp hid) (hnew r hold)
          · rw [mem_singleton.mp hrow]
            rfl
        · rintro id hid ⟨r, hmem, rfl, hstate⟩
          rw [hrows] at hmem
          rw [hadded] at hid
          rcases mem_append.mp hmem with hold | hrow
          · rcases mem_append.mp hid with hid | hid
            · exact absurd ⟨r, hold, rfl, hstate⟩ (hfinished r.id hid)
            · exact mem_singleton.mp hid
          · rw [mem_singleton.mp hrow]
            rfl

theorem step_forbid {a : Action} (h : step d w a = some t)
    (hforbid : ForbidTick w a) (hone : OneRunTick w a) : ForbidInvariant d t := by
  cases a with
  | tickBegins =>
    exact tickBegins_forbid hinv hforbid hone h
  | tickFires =>
    exact (tickFires_forbid hinv h).1
  | tickFails =>
    obtain ⟨f, hfiring, rfl⟩ := tickFails_cases h
    have hanswer := answering_of_created_nil hinv hfiring (hone f hfiring)
    exact hinv.of_ended rfl rfl rfl hanswer
  | tickEnds =>
    obtain ⟨f, hfiring, _, rfl⟩ := tickEnds_cases h
    refine hinv.of_ended rfl rfl rfl ?_
    rw [World.answering, hfiring]
    have hlast := hinv.lastRun f hfiring
    cases hcreated : f.created.getLast? with
    | none =>
      simp [Schedule.advance, hcreated, hlast]
    | some =>
      simp [Schedule.advance, hcreated]
  | patchReads =>
    obtain ⟨_, rfl⟩ := patchReads_cases h
    exact hinv.of_same_firing rfl rfl rfl (fun r hr => ⟨r, hr, rfl, rfl⟩) (fun _ hgoing => hgoing)
  | patchWrites =>
    obtain ⟨p, _, rfl | ⟨parsed, write, _, rfl⟩⟩ := patchWrites_cases h
    · exact hinv.of_same_firing rfl rfl rfl (fun r hr => ⟨r, hr, rfl, rfl⟩) (fun _ hgoing => hgoing)
    · exact hinv.of_same_firing rfl rfl rfl (fun r hr => ⟨r, hr, rfl, rfl⟩) (fun _ hgoing => hgoing)
  | patchFails =>
    rw [patchFails_cases h]
    exact hinv.of_same_firing rfl rfl rfl (fun r hr => ⟨r, hr, rfl, rfl⟩) (fun _ hgoing => hgoing)
  | runBecomes =>
    cases h
    refine hinv.of_same_firing rfl rfl rfl ?_ (fun _ => unfinished_of_setState)
    intro r hr
    obtain ⟨s, hs, rfl⟩ := mem_map.mp hr
    refine ⟨s, hs, ?_⟩
    split_ifs <;> exact ⟨rfl, rfl⟩
  | runPruned =>
    cases h
    exact hinv.of_same_firing rfl rfl rfl (fun r hr => ⟨r, (mem_filter.mp hr).1, rfl, rfl⟩)
      (fun _ => unfinished_of_prune)

theorem step_noOverlap {a : Action} (h : step d w a = some t) :
    NoOverlap w a t := by
  cases a with
  | tickBegins =>
    obtain ⟨_, rfl | ⟨f, _, rfl⟩⟩ := tickBegins_cases h
    · exact fun hne => absurd rfl hne
    · exact fun hne => absurd rfl hne
  | tickFires =>
    exact (tickFires_forbid hinv h).2
  | tickFails =>
    obtain ⟨f, _, rfl⟩ := tickFails_cases h
    exact fun hne => absurd rfl hne
  | tickEnds =>
    obtain ⟨f, _, _, rfl⟩ := tickEnds_cases h
    exact fun hne => absurd rfl hne
  | patchReads =>
    obtain ⟨_, rfl⟩ := patchReads_cases h
    exact fun hne => absurd rfl hne
  | patchWrites =>
    obtain ⟨p, _, rfl | ⟨parsed, write, _, rfl⟩⟩ := patchWrites_cases h
    · exact fun hne => absurd rfl hne
    · exact fun hne => absurd rfl hne
  | patchFails =>
    rw [patchFails_cases h]
    exact fun hne => absurd rfl hne
  | runBecomes =>
    cases h
    exact fun hne => absurd rfl hne
  | runPruned =>
    cases h
    exact fun hne => absurd rfl hne

end

/-- **No overlap under `forbid`**: in every run in which each tick owes one
instant and writes what it created. -/
theorem forbid_never_overlaps (d : Deployment) (w : World) (actions : List Action)
    (hidle : w.firing = none) (hnone : w.fired = [])
    (hforbid : EveryStep (step d) (fun s a _ => ForbidTick s a) w actions)
    (hone : EveryStep (step d) (fun s a _ => OneRunTick s a) w actions) :
    EveryStep (step d) NoOverlap w actions := by
  have hstart : ForbidInvariant d w := by
    refine ⟨?_, ?_, ?_, ?_, ?_⟩
    · simp [hnone]
    · simp [hidle]
    · simp [hidle]
    · simp [hidle]
    · simp [hnone]
  exact EveryStep.of_invariant (fun s a t hinv hstep hadm => step_forbid hinv hstep hadm.1 hadm.2)
    (fun s a t hinv hstep _ => step_noOverlap hinv hstep) hstart (hforbid.and hone)

end Preservation

def oneMinuteLater : OffsetDateTime := ⟨60 * nanosPerSecond, by decide, by decide⟩

/-- Two ticks on time, the first run ended in between. -/
theorem on_time_ticks_never_overlap :
    EveryStep (step platform) NoOverlap (World.start minutelyBackfill (.interval everyMinute))
      [.tickBegins epoch, .tickFires (uuid "r1"), .tickEnds, .runBecomes (uuid "r1") .succeeded,
        .tickBegins oneMinuteLater, .tickFires (uuid "r2"), .tickEnds] :=
  forbid_never_overlaps platform _ _ rfl rfl (by decide) (by decide)

/-- A tick that is a minute late owes two instants, and enqueues the second
while the run of the first is queued. -/
theorem backfill_overlaps :
    ¬ ∀ (d : Deployment) (w : World) (actions : List Action), w.firing = none → w.fired = [] →
      EveryStep (step d) (fun s a _ => ForbidTick s a) w actions →
      EveryStep (step d) NoOverlap w actions := by
  intro hall
  have hoverlap :=
    hall platform (World.start minutelyBackfill (.interval everyMinute))
      [.tickBegins oneMinuteLater, .tickFires (uuid "r1"), .tickFires (uuid "r2")]
      rfl rfl (by decide)
  exact absurd hoverlap (by decide)

end Scheduler
end StudioWeb
