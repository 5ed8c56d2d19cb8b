import StudioWeb.Scheduler.ScheduleSystem

/-!
# A patch of the expression against a tick

A patch that changes the expression computes the next firing from the new
expression and writes both.  A tick plans from the row it read and writes the
next firing of that plan by id, whatever the row says by then.  Neither write
depends on the other.

So the stored `next_run_at` belongs to the stored expression as long as a tick
writes while the row still has the expression it planned with.  A patch that
lands between the read and the write of a tick is followed by a firing of the
old grid.
-/

namespace StudioWeb
namespace Scheduler

open Rust CivilTime LabelledRuns Expression

/-- An instant that an expression answers. -/
def Yields (expression : Expression) (instant : OffsetDateTime) : Prop :=
  ∃ after lastFired, expression.nextAfter after lastFired = .ok instant

/-- The row has the fields an update asked for. -/
structure Schedule.Carries (row : Schedule) (update : ScheduleUpdate) : Prop where
  expressionKind : ∀ k, update.expressionKind = some k → row.expressionKind = k
  timezone : ∀ z, update.timezone = some z → row.timezone = z
  concurrency : ∀ c, update.concurrency = some c → row.concurrency = c
  missedPolicy : ∀ m, update.missedPolicy = some m → row.missedPolicy = m
  maxCatchUpRuns :
    ∀ n, update.maxCatchUpRuns = some n → row.maxCatchUpRuns = clampCatchUp n
  enabled : ∀ b, update.enabled = some b → row.enabled = b
  payload : ∀ v, update.payload = some v → row.payload = v

/-- The next firing was computed from the stored expression, and the last patch
is stored. -/
structure World.Agrees (w : World) : Prop where
  stored :
    parse w.row.expressionKind w.row.expression = .ok w.cadence
  yields : Yields w.cadence w.row.nextRunAt
  carries : ∀ update, w.patched = some update → w.row.Carries update

/-- A tick writes while the row has the expression it planned with. -/
def CadenceUnmoved (w : World) : Action → Prop
  | .tickEnds => ∀ f, w.firing = some f →
      parse w.row.expressionKind w.row.expression = .ok f.expression
  | _ => True

instance (w : World) : ∀ a, Decidable (CadenceUnmoved w a)
  | .tickEnds =>
    match hfiring : w.firing with
    | none => isTrue (fun f hf => by rw [hfiring] at hf; cases hf)
    | some f =>
      decidable_of_iff (parse w.row.expressionKind w.row.expression = .ok f.expression)
        (by simp [CadenceUnmoved, hfiring])
  | .tickBegins _ | .tickFires _ | .tickFails | .patchReads _ | .patchWrites _
  | .patchFails | .runBecomes _ _ | .runPruned _ => isTrue trivial

/-- What holds between the steps: the row agrees, a tick under way plans with
what its expression yields, and a patch under way has read a row that agreed. -/
structure CadenceInvariant (w : World) : Prop where
  agrees : w.Agrees
  planned : ∀ f, w.firing = some f → Yields f.expression f.nextRunAt
  read : ∀ p, w.patching = some p →
    parse p.existing.expressionKind p.existing.expression = .ok p.cadence ∧
      Yields p.cadence p.existing.nextRunAt

section Writes

variable {update : ScheduleUpdate} {now : OffsetDateTime}

/-- The columns of a patch: what was asked for, a form of the expression that
parses to what was validated, and a next firing that expression yields. -/
theorem patchWrite_eq_ok {registry : Registry} {existing : Schedule} {parsed : Expression} {write : PatchWrite}
    (h : patchWrite registry existing update now = .ok (parsed, write)) :
    parse (update.expressionKind.getD existing.expressionKind)
        (update.expression.getD existing.expression) = .ok parsed ∧
      parse write.expressionKind write.expression = .ok parsed ∧
      patchNextRunAt parsed existing update now = .ok write.nextRunAt := by
  obtain ⟨⟨parsed', concurrency, missed⟩, hvalid, h⟩ := bind_eq_ok_iff.mp h
  obtain ⟨nextRunAt, hnext, h⟩ := bind_eq_ok_iff.mp h
  cases h
  have hparse : parse (update.expressionKind.getD existing.expressionKind)
        (update.expression.getD existing.expression) = .ok parsed := by
    unfold validate at hvalid
    split_ifs at hvalid
    · obtain ⟨_, _, hvalid⟩ := bind_eq_ok_iff.mp hvalid
      obtain ⟨expression, hexpression, hvalid⟩ := bind_eq_ok_iff.mp hvalid
      obtain ⟨_, _, hvalid⟩ := bind_eq_ok_iff.mp hvalid
      obtain ⟨_, _, hvalid⟩ := bind_eq_ok_iff.mp hvalid
      cases hvalid
      exact hexpression
    · simp [noHandler, fail] at hvalid
  exact ⟨hparse, parse_canonical hparse, hnext⟩

theorem applyPatch_carries {registry : Registry} {row existing : Schedule} {parsed : Expression} {write : PatchWrite}
    (h : patchWrite registry existing update now = .ok (parsed, write)) :
    (row.applyPatch write).Carries update := by
  obtain ⟨⟨parsed', concurrency, missed⟩, _, h⟩ := bind_eq_ok_iff.mp h
  obtain ⟨nextRunAt, _, h⟩ := bind_eq_ok_iff.mp h
  cases h
  constructor
  all_goals
    intro value hvalue
    simp [Schedule.applyPatch, hvalue]

theorem advance_carries {row : Schedule} {f : Firing}
    (h : row.Carries update) : (row.advance f).Carries update := by
  unfold Schedule.advance
  split
  · exact ⟨h.1, h.2, h.3, h.4, h.5, h.6, h.7⟩
  · exact ⟨h.1, h.2, h.3, h.4, h.5, h.6, h.7⟩

theorem advance_fields (row : Schedule) (f : Firing) :
    (row.advance f).expressionKind = row.expressionKind ∧
      (row.advance f).expression = row.expression ∧
      (row.advance f).nextRunAt = f.nextRunAt := by
  unfold Schedule.advance
  split
  · exact ⟨rfl, rfl, rfl⟩
  · exact ⟨rfl, rfl, rfl⟩

theorem beginFire_yields {row : Schedule} {f : Firing}
    (h : beginFire row now = .ok f) : Yields f.expression f.nextRunAt := by
  obtain ⟨_, firings, _, _, _, hplan, _, _, hnext, _⟩ := beginFire_eq_ok h
  obtain ⟨_, _, hyields, _, _⟩ := plan_eq_ok_iff.mp hplan
  rw [hnext]
  exact ⟨_, _, hyields⟩

end Writes

section Preservation

variable {d : Deployment} {w t : World}

/-- **What the write of a tick does**: the row still parses to the expression its
next firing came from exactly when the expression has not moved. -/
theorem tickEnds_agrees_iff (h : w.tickEnds = some t) :
    parse t.row.expressionKind t.row.expression = .ok t.cadence ↔
    CadenceUnmoved w .tickEnds := by
  obtain ⟨f, hfiring, _, rfl⟩ := tickEnds_cases h
  obtain ⟨hkind, hexpression, _⟩ := advance_fields w.row f
  simp [CadenceUnmoved, hfiring, hkind, hexpression]

section

variable (hinv : CadenceInvariant w)
include hinv

theorem CadenceInvariant.of_same_row
    (hrow : t.row = w.row) (hcadence : t.cadence = w.cadence) (hpatched : t.patched = w.patched)
    (hplanned : ∀ f, t.firing = some f → Yields f.expression f.nextRunAt)
    (hread : ∀ p, t.patching = some p →
      parse p.existing.expressionKind p.existing.expression = .ok p.cadence ∧
        Yields p.cadence p.existing.nextRunAt) :
    CadenceInvariant t where
  agrees := by
    refine ⟨?_, ?_, ?_⟩
    · rw [hrow, hcadence]
      exact hinv.agrees.stored
    · rw [hrow, hcadence]
      exact hinv.agrees.yields
    · rw [hrow, hpatched]
      exact hinv.agrees.carries
  planned := hplanned
  read := hread

theorem tickFires_cadence {fresh : Uuid}
    (h : w.tickFires d fresh = some t) : CadenceInvariant t := by
  obtain ⟨f, hfiring, _, rfl | ⟨runs, f', hfire, rfl⟩⟩ := tickFires_cases h
  · exact hinv.of_same_row rfl rfl rfl (by rintro g ⟨⟩) hinv.read
  · obtain ⟨_, hexpression, hnext, _⟩ := fireInstant_frame hfire
    refine hinv.of_same_row rfl rfl rfl ?_ hinv.read
    rintro g ⟨⟩
    rw [hexpression, hnext]
    exact hinv.planned f hfiring

theorem tickEnds_cadence (h : w.tickEnds = some t)
    (hunmoved : CadenceUnmoved w .tickEnds) : CadenceInvariant t := by
  have hstored := (tickEnds_agrees_iff h).mpr hunmoved
  obtain ⟨f, hfiring, _, rfl⟩ := tickEnds_cases h
  obtain ⟨_, _, hnext⟩ := advance_fields w.row f
  refine ⟨⟨hstored, ?_, ?_⟩, by rintro g ⟨⟩, hinv.read⟩
  · show Yields f.expression (w.row.advance f).nextRunAt
    rw [hnext]
    exact hinv.planned f hfiring
  · intro update hupdate
    exact advance_carries (hinv.agrees.carries update hupdate)

theorem patchWrites_cadence {now : OffsetDateTime}
    (h : w.patchWrites d now = some t) : CadenceInvariant t := by
  obtain ⟨p, hpatching, rfl | ⟨parsed, write, hwrite, rfl⟩⟩ := patchWrites_cases h
  · exact hinv.of_same_row rfl rfl rfl hinv.planned (by rintro q ⟨⟩)
  · obtain ⟨hparse, hstored, hnext⟩ := patchWrite_eq_ok hwrite
    obtain ⟨hread, hyields⟩ := hinv.read p hpatching
    -- with no expression given, what was validated is what was read
    have hsame : p.update.changesCadence ≠ true → parsed = p.cadence := by
      intro hchanges
      obtain ⟨hexpression, hkind⟩ :
          p.update.expression = none ∧ p.update.expressionKind = none := by
        simpa [ScheduleUpdate.changesCadence] using hchanges
      rw [hexpression, hkind, Option.getD_none, Option.getD_none, hread] at hparse
      exact (Except.ok.inj hparse).symm
    unfold patchNextRunAt at hnext
    refine ⟨⟨?_, ?_, ?_⟩, hinv.planned, by rintro q ⟨⟩⟩
    · show parse write.expressionKind write.expression =
        .ok (if p.update.changesCadence then parsed else p.cadence)
      split_ifs with hchanges
      · exact hstored
      · rw [← hsame hchanges]
        exact hstored
    · show Yields (if p.update.changesCadence then parsed else p.cadence) write.nextRunAt
      split_ifs at hnext ⊢
      · exact ⟨_, _, hnext⟩
      · rw [← Except.ok.inj hnext]
        exact hyields
    · rintro update ⟨⟩
      exact applyPatch_carries hwrite

theorem step_cadence {a : Action} (h : step d w a = some t)
    (hunmoved : CadenceUnmoved w a) : CadenceInvariant t := by
  cases a with
  | tickBegins =>
    obtain ⟨_, rfl | ⟨f, hbegin, rfl⟩⟩ := tickBegins_cases h
    · exact hinv
    · refine hinv.of_same_row rfl rfl rfl ?_ hinv.read
      rintro g ⟨⟩
      exact beginFire_yields hbegin
  | tickFires =>
    exact tickFires_cadence hinv h
  | tickFails =>
    obtain ⟨f, _, rfl⟩ := tickFails_cases h
    exact hinv.of_same_row rfl rfl rfl (by rintro g ⟨⟩) hinv.read
  | tickEnds =>
    exact tickEnds_cadence hinv h hunmoved
  | patchReads =>
    obtain ⟨_, rfl⟩ := patchReads_cases h
    refine hinv.of_same_row rfl rfl rfl hinv.planned ?_
    rintro p ⟨⟩
    exact ⟨hinv.agrees.stored, hinv.agrees.yields⟩
  | patchWrites =>
    exact patchWrites_cadence hinv h
  | patchFails =>
    rw [patchFails_cases h]
    exact hinv.of_same_row rfl rfl rfl hinv.planned (by rintro p ⟨⟩)
  | runBecomes =>
    cases h
    exact hinv.of_same_row rfl rfl rfl hinv.planned hinv.read
  | runPruned =>
    cases h
    exact hinv.of_same_row rfl rfl rfl hinv.planned hinv.read

end

theorem cadenceUnmoved_of_agrees {a : Action} (h : step d w a = some t) (hagrees : t.Agrees) :
    CadenceUnmoved w a := by
  cases a with
  | tickEnds =>
    exact (tickEnds_agrees_iff h).mp hagrees.stored
  | _ => trivial

/-- **A patch against a tick**: from a row that agrees with its expression, the
row agrees after every step exactly when every tick writes on an unmoved
expression. -/
theorem agrees_iff_cadenceUnmoved (d : Deployment) (w : World) (actions : List Action)
    (hidle : w.firing = none ∧ w.patching = none) (hagrees : w.Agrees) :
    EveryStep (step d) (fun _ _ t => t.Agrees) w actions ↔
    EveryStep (step d) (fun s a _ => CadenceUnmoved s a) w actions := by
  have hstart : CadenceInvariant w := by
    refine ⟨hagrees, ?_, ?_⟩
    · simp [hidle.1]
    · simp [hidle.2]
  constructor
  · exact EveryStep.of_invariant (fun s a t hinv hstep ht =>
        step_cadence hinv hstep (cadenceUnmoved_of_agrees hstep ht))
      (fun s a t _ hstep ht => cadenceUnmoved_of_agrees hstep ht) hstart
  · exact EveryStep.of_invariant (fun s a t hinv hstep hunmoved => step_cadence hinv hstep hunmoved)
      (fun s a t hinv hstep hunmoved => (step_cadence hinv hstep hunmoved).agrees) hstart

end Preservation

/-- An hourly schedule, next due at one o'clock. -/
def everyHour : Interval := ⟨⟨3600, by decide, by decide⟩, by decide⟩

def oneHour : OffsetDateTime := ⟨3600 * nanosPerSecond, by decide, by decide⟩

def hourly : Schedule :=
  { minutelyBackfill with expression := "PT1H", nextRunAt := oneHour }

def halfHourly : ScheduleUpdate :=
  { expressionKind := none
    expression := some "PT30M"
    timezone := none
    concurrency := none
    missedPolicy := some "skip"
    maxCatchUpRuns := none
    enabled := none
    payload := none }

theorem hourly_agrees :
    (World.start hourly (.interval everyHour)).Agrees where
  stored := by decide
  yields := ⟨epoch, none, by decide⟩
  carries := by rintro update ⟨⟩

/-- A patch before a tick and one after a tick. -/
theorem patches_around_a_tick_agree :
    EveryStep (step platform) (fun _ _ t => t.Agrees) (World.start hourly (.interval everyHour))
      [.tickBegins oneHour, .patchReads halfHourly, .tickFires (uuid "r1"),
        .tickEnds, .patchWrites oneHour] :=
  (agrees_iff_cadenceUnmoved platform _ _ ⟨rfl, rfl⟩ hourly_agrees).mpr (by decide)

/-- The order tick reads, patch reads, patch writes, tick writes. -/
theorem patch_between_read_and_write :
    ¬ ∀ (d : Deployment) (w u : World) (actions : List Action),
      w.firing = none ∧ w.patching = none → w.Agrees →
      runActions (step d) w actions = some u →
      u.firing = none ∧ u.patching = none →
      u.Agrees := by
  intro hall
  let w := World.start hourly (.interval everyHour)
  let actions : List Action :=
    [.tickBegins oneHour, .tickFires (uuid "r1"), .patchReads halfHourly,
      .patchWrites oneHour, .tickEnds]
  obtain ⟨u, hu⟩ : ∃ u, runActions (step platform) w actions = some u :=
    Option.isSome_iff_exists.mp (by decide)
  have hdone : (runActions (step platform) w actions).all
      (fun u => u.firing.isNone && u.patching.isNone) = true := by decide
  have hmoved : (runActions (step platform) w actions).all
      (fun u => decide (parse u.row.expressionKind u.row.expression ≠
        .ok u.cadence)) = true := by decide
  rw [hu] at hdone hmoved
  have hagrees := hall platform w u actions ⟨rfl, rfl⟩ hourly_agrees hu (by
    simpa using hdone)
  exact (of_decide_eq_true hmoved) hagrees.stored

end Scheduler
end StudioWeb
