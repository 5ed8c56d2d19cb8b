import StudioWeb.Scheduler.PatchAgainstTick

/-!
# Which firings lie ahead, and which of them a plan accounts for

A cron looks ahead of the instant it is asked about.  An interval measures from the previous
firing, so its answer lies ahead of the instant only where that firing is less than a gap ago.

From an instant that fires on, each next firing is measured from the one before, and comes after
it.  `FiringsUpTo` are the due instant and the firings that follow up to now, and a plan divides
them into those it schedules and those it drops.
-/

namespace StudioWeb
namespace Scheduler

open Rust CivilTime List

def MeasuresAhead (expression : Expression) (after : OffsetDateTime)
    (lastFired : Option OffsetDateTime) : Prop :=
  match expression, lastFired with
  | .cron _, _ => True
  | .interval _, none => True
  | .interval gap, some last => after.nanos < last.nanos + gap.every.nanos

theorem nextAfter_ahead_iff (expression : Expression) (after : OffsetDateTime)
    (lastFired : Option OffsetDateTime) :
    (∀ t, expression.nextAfter after lastFired = .ok t → after < t) ↔
    MeasuresAhead expression after lastFired := by
  cases expression with
  | cron =>
    exact ⟨fun _ => trivial, fun _ t ht => Cron.nextAfter_gt ht⟩
  | interval gap =>
    have hpos := gap.nanos_pos
    cases lastFired with
    | none =>
      refine ⟨fun _ => trivial, fun _ t ht => ?_⟩
      have hnanos : t.nanos = after.nanos + gap.every.nanos := OffsetDateTime.add_eq_ok_iff.mp ht
      rw [OffsetDateTime.lt_def]
      omega
    | some last =>
      constructor
      · intro hall
        by_contra hbehind
        have hle : last.nanos + gap.every.nanos ≤ after.nanos := not_lt.mp hbehind
        have hmin := last.min_le
        have hmax := after.le_max
        let t : OffsetDateTime := ⟨last.nanos + gap.every.nanos, by omega, by omega⟩
        have hlt := hall t (interval_nextAfter_eq_ok_iff.mpr rfl)
        rw [OffsetDateTime.lt_def] at hlt
        change after.nanos < last.nanos + gap.every.nanos at hlt
        omega
      · intro hahead t ht
        have hnanos := interval_nextAfter_eq_ok_iff.mp ht
        rw [OffsetDateTime.lt_def, hnanos]
        exact hahead

theorem create_nextRunAt {registry : Registry} {owner createdBy id : Uuid} {taken : String → Bool}
    {now : OffsetDateTime} {request : NewSchedule} {row : Schedule}
    (h : create registry owner createdBy id taken now request = .ok row) :
    ∃ expression : Expression, expression.nextAfter now none = .ok row.nextRunAt := by
  unfold create at h
  simp only at h
  split_ifs at h
  · simp [fail] at h
  · obtain ⟨validated, _, h⟩ := bind_eq_ok_iff.mp h
    simp [fail] at h
  · obtain ⟨⟨expression, concurrency, missed⟩, _, h⟩ := bind_eq_ok_iff.mp h
    obtain ⟨next, hnext, h⟩ := bind_eq_ok_iff.mp h
    cases h
    exact ⟨expression, hnext⟩

theorem patchWrite_nextRunAt {registry : Registry} {existing : Schedule} {patch : ScheduleUpdate}
    {now : OffsetDateTime} {parsed : Expression} {write : PatchWrite}
    (hcadence : patch.changesCadence = true)
    (h : patchWrite registry existing patch now = .ok (parsed, write)) :
    parsed.nextAfter now existing.lastFiredAt = .ok write.nextRunAt := by
  unfold patchWrite at h
  obtain ⟨⟨expression, concurrency, missed⟩, _, h⟩ := bind_eq_ok_iff.mp h
  obtain ⟨next, hnext, h⟩ := bind_eq_ok_iff.mp h
  cases h
  simpa [patchNextRunAt, hcadence] using hnext

theorem ahead_iff_of_nextAfter {expression : Expression} {after t : OffsetDateTime}
    {lastFired : Option OffsetDateTime} (h : expression.nextAfter after lastFired = .ok t) :
    after < t ↔ MeasuresAhead expression after lastFired := by
  rw [← nextAfter_ahead_iff]
  constructor
  · intro hlt u hu
    obtain rfl : t = u := Except.ok.inj (h.symm.trans hu)
    exact hlt
  · exact fun hall => hall t h

/-- **When a next firing is ahead**: what `next_after` answers, what `create` stores, and what a
patch of the cadence stores. -/
theorem next_firing_is_ahead_iff
    (expression : Expression) (after : OffsetDateTime) (lastFired : Option OffsetDateTime) :
    ((∀ t, expression.nextAfter after lastFired = .ok t → after < t) ↔
      MeasuresAhead expression after lastFired) ∧
    (∀ (registry : Registry) (owner createdBy id : Uuid) (taken : String → Bool)
        (now : OffsetDateTime) (request : NewSchedule) (row : Schedule),
      create registry owner createdBy id taken now request = .ok row → now < row.nextRunAt) ∧
    ∀ (registry : Registry) (existing : Schedule) (patch : ScheduleUpdate)
        (now : OffsetDateTime) (parsed : Expression) (write : PatchWrite),
      patch.changesCadence = true →
      patchWrite registry existing patch now = .ok (parsed, write) →
      (now < (existing.applyPatch write).nextRunAt ↔
      MeasuresAhead parsed now existing.lastFiredAt) := by
  refine ⟨nextAfter_ahead_iff expression after lastFired, ?_, ?_⟩
  · intro registry owner createdBy id taken now request row h
    obtain ⟨expression, hnext⟩ := create_nextRunAt h
    refine (ahead_iff_of_nextAfter hnext).mpr ?_
    cases expression with
    | cron =>
      exact trivial
    | interval =>
      exact trivial
  · intro registry existing patch now parsed write hcadence h
    exact ahead_iff_of_nextAfter (patchWrite_nextRunAt hcadence h)

/-- A minutely interval that has not fired for a thousand minutes fires at once. -/
theorem an_old_firing_is_not_ahead :
    ¬ ∀ (expression : Expression) (after : OffsetDateTime) (lastFired : Option OffsetDateTime)
        (t : OffsetDateTime),
      expression.nextAfter after lastFired = .ok t → after < t := by
  intro hall
  have hahead := (nextAfter_ahead_iff (.interval everyMinute) thousandMinutesLater
    (some epoch)).mp (hall _ _ _)
  exact absurd hahead (by simp [MeasuresAhead]; decide)

section Accounting

/-- Firings each of which is measured from the one before. -/
def Successive (expression : Expression) : OffsetDateTime → List OffsetDateTime → Prop
  | _, [] => True
  | cursor, next :: later =>
    expression.nextAfter cursor (some cursor) = .ok next ∧ Successive expression next later

structure FiringsUpTo (expression : Expression) (dueAt now : OffsetDateTime)
    (later : List OffsetDateTime) : Prop where
  successive : Successive expression dueAt later
  upTo : ∀ t ∈ later, t ≤ now
  bounded : (dueAt :: later).length ≤ maxWalk
  /-- The firings end at now, unless the walk is full. -/
  ends : (dueAt :: later).length < maxWalk →
    ∀ t, expression.nextAfter (later.getLastD dueAt) (some (later.getLastD dueAt)) = .ok t → now < t

/-- How many of the firings up to now are run. -/
def MissedPolicy.runs (policy : MissedPolicy) (maxCatchUpRuns : Int) (missed : Nat) : Nat :=
  match policy with
  | .skip => 1
  | .catchUp => 1
  | .backfill => min missed (max maxCatchUpRuns 1).toNat

variable {expression : Expression}
variable {dueAt now : OffsetDateTime}

theorem nextAfter_self_gt {cursor next : OffsetDateTime}
    (h : expression.nextAfter cursor (some cursor) = .ok next) : cursor < next := by
  refine (ahead_iff_of_nextAfter h).mpr ?_
  cases expression with
  | cron =>
    exact trivial
  | interval gap =>
    have hpos := gap.nanos_pos
    change cursor.nanos < cursor.nanos + gap.every.nanos
    omega

theorem walk_spec :
    ∀ (room : Nat) {cursor : OffsetDateTime} {later : List OffsetDateTime},
      walk expression now room cursor = .ok later →
      Successive expression cursor later ∧ (∀ t ∈ later, t ≤ now) ∧ later.length ≤ room ∧
        (later.length < room →
          ∀ t, expression.nextAfter (later.getLastD cursor) (some (later.getLastD cursor)) = .ok t →
            now < t)
  | 0, cursor, later, h => by
    cases h
    exact ⟨trivial, by simp, le_refl _, fun hlt => absurd hlt (lt_irrefl _)⟩
  | room + 1, cursor, later, h => by
    obtain ⟨next, hnext, h⟩ := bind_eq_ok_iff.mp h
    split_ifs at h with hafter
    · cases h
      refine ⟨trivial, by simp, Nat.zero_le _, fun _ t ht => ?_⟩
      rw [getLastD_nil] at ht
      obtain rfl : next = t := Except.ok.inj (hnext.symm.trans ht)
      exact hafter
    · obtain ⟨tail, htail, h⟩ := bind_eq_ok_iff.mp h
      cases h
      obtain ⟨hsuccessive, hupTo, hlength, hends⟩ := walk_spec room htail
      refine ⟨⟨hnext, hsuccessive⟩, ?_, by simpa using hlength, ?_⟩
      · intro t ht
        rcases mem_cons.mp ht with rfl | ht
        · rw [OffsetDateTime.le_def]
          rw [OffsetDateTime.lt_def] at hafter
          omega
        · exact hupTo t ht
      · intro hlt
        rw [getLastD_cons]
        exact hends (by simpa using hlt)

theorem Successive.increasing :
    ∀ {cursor : OffsetDateTime} {later : List OffsetDateTime}, Successive expression cursor later →
      (cursor :: later).Pairwise (· < ·)
  | cursor, [], _ => by
    simp
  | cursor, next :: later, ⟨hnext, hlater⟩ => by
    have hgt := nextAfter_self_gt hnext
    have htail := Successive.increasing hlater
    refine pairwise_cons.mpr ⟨?_, htail⟩
    intro t ht
    rcases mem_cons.mp ht with rfl | ht
    · exact hgt
    · have hlt := (pairwise_cons.mp htail).1 t ht
      rw [OffsetDateTime.lt_def] at hgt hlt ⊢
      omega

theorem Successive.unique :
    ∀ {room : Nat} {cursor : OffsetDateTime} {later later' : List OffsetDateTime},
      Successive expression cursor later →
      Successive expression cursor later' →
      (∀ t ∈ later, t ≤ now) →
      (∀ t ∈ later', t ≤ now) →
      later.length ≤ room →
      later'.length ≤ room →
      (later.length < room →
        ∀ t, expression.nextAfter (later.getLastD cursor) (some (later.getLastD cursor)) = .ok t →
          now < t) →
      (later'.length < room →
        ∀ t, expression.nextAfter (later'.getLastD cursor) (some (later'.getLastD cursor)) = .ok t →
          now < t) →
      later = later'
  | room, _, [], [], _, _, _, _, _, _, _, _ => rfl
  | room, _, [], next :: later', _, ⟨hnext, _⟩, _, hupTo', _, hlength', hends, _ => by
    have hlt := hends (by simp at hlength' ⊢; omega) next hnext
    have hle := hupTo' next (by simp)
    rw [OffsetDateTime.lt_def] at hlt
    rw [OffsetDateTime.le_def] at hle
    omega
  | room, _, next :: later, [], ⟨hnext, _⟩, _, hupTo, _, hlength, _, _, hends' => by
    have hlt := hends' (by simp at hlength ⊢; omega) next hnext
    have hle := hupTo next (by simp)
    rw [OffsetDateTime.lt_def] at hlt
    rw [OffsetDateTime.le_def] at hle
    omega
  | 0, _, next :: later, next' :: later', _, _, _, _, hlength, _, _, _ => by
    simp at hlength
  | room + 1, cursor, next :: later, next' :: later', ⟨hnext, hs⟩, ⟨hnext', hs'⟩, hupTo, hupTo',
      hlength, hlength', hends, hends' => by
      obtain rfl : next = next' := Except.ok.inj (hnext.symm.trans hnext')
      rw [getLastD_cons] at hends hends'
      rw [Successive.unique hs hs' (fun t ht => hupTo t (by simp [ht]))
        (fun t ht => hupTo' t (by simp [ht])) (Nat.le_of_succ_le_succ hlength)
        (Nat.le_of_succ_le_succ hlength') (fun h => hends (Nat.succ_lt_succ h))
        (fun h => hends' (Nat.succ_lt_succ h))]

theorem firingsUpTo_of_walk {later : List OffsetDateTime}
    (h : walk expression now (maxWalk - 1) dueAt = .ok later) :
    FiringsUpTo expression dueAt now later ∧
      ∀ later', FiringsUpTo expression dueAt now later' → later' = later := by
  obtain ⟨hsuccessive, hupTo, hlength, hends⟩ := walk_spec (maxWalk - 1) h
  have hwalk : maxWalk - 1 + 1 = maxWalk := rfl
  refine ⟨⟨hsuccessive, hupTo, ?_, ?_⟩, ?_⟩
  · rw [length_cons]
    omega
  · intro hlt
    rw [length_cons] at hlt
    exact hends (by omega)
  · rintro later' ⟨hsuccessive', hupTo', hbounded', hends'⟩
    rw [length_cons] at hbounded' hends'
    exact Successive.unique hsuccessive' hsuccessive hupTo' hupTo
      (show later'.length ≤ maxWalk - 1 by omega) hlength (fun hlt => hends' (by omega)) hends

theorem choose_spec (policy : MissedPolicy) (maxCatchUpRuns : Int) (dueAt : OffsetDateTime)
    (later : List OffsetDateTime) :
    let missed := dueAt :: later
    let chosen := choose policy maxCatchUpRuns missed dueAt
    chosen.1 <:+ missed ∧ chosen.1.length = policy.runs maxCatchUpRuns missed.length ∧
      chosen.1.length + chosen.2 = missed.length := by
  have hlast : [(dueAt :: later).getLastD dueAt] <:+ dueAt :: later := by
    have hne : dueAt :: later ≠ [] := nofun
    have heq : (dueAt :: later).getLastD dueAt = (dueAt :: later).getLast hne := by
      rw [getLastD_eq_getLast?, getLast?_eq_getLast_of_ne_nil hne]
      rfl
    rw [heq]
    exact ⟨(dueAt :: later).dropLast, dropLast_append_getLast hne⟩
  have hone : 1 + ((dueAt :: later).length - 1) = (dueAt :: later).length := by
    rw [length_cons]
    omega
  have hcap : 1 ≤ (max maxCatchUpRuns 1).toNat := by
    omega
  cases policy with
  | skip =>
    exact ⟨hlast, rfl, hone⟩
  | catchUp =>
    exact ⟨hlast, rfl, hone⟩
  | backfill =>
    simp only [choose]
    split_ifs with hfits
    · exact ⟨suffix_refl _, (Nat.min_eq_left hfits).symm, Nat.add_zero _⟩
    · refine ⟨drop_suffix _ _, ?_, ?_⟩
      · rw [length_drop, MissedPolicy.runs, Nat.min_eq_right (by omega)]
        omega
      · rw [length_drop]
        omega

/-- **Every firing is accounted for**: a plan schedules the last of the firings up to now, in
their order, and drops the others. -/
theorem plan_accounts_for_every_firing (expression : Expression) (dueAt now : OffsetDateTime)
    (policy : MissedPolicy) (maxCatchUpRuns : Int) (firings : Firings)
    (h : plan expression dueAt now policy maxCatchUpRuns = .ok firings) :
    ∃ later, FiringsUpTo expression dueAt now later ∧
      (∀ later', FiringsUpTo expression dueAt now later' → later' = later) ∧
      firings.scheduledFor ≠ [] ∧
      firings.scheduledFor.Pairwise (· < ·) ∧
      firings.scheduledFor <:+ dueAt :: later ∧
      firings.scheduledFor.length = policy.runs maxCatchUpRuns (dueAt :: later).length ∧
      firings.scheduledFor.length + firings.dropped = (dueAt :: later).length := by
  obtain ⟨later, hwalk, _, hscheduled, hdropped⟩ := plan_eq_ok_iff.mp h
  obtain ⟨hfirings, hunique⟩ := firingsUpTo_of_walk hwalk
  obtain ⟨hsuffix, hlength, hsum⟩ := choose_spec policy maxCatchUpRuns dueAt later
  rw [← hscheduled] at hsuffix hlength hsum
  rw [← hdropped] at hsum
  refine ⟨later, hfirings, hunique, ?_, ?_, hsuffix, hlength, hsum⟩
  · intro hnil
    rw [hnil, length_nil] at hlength
    cases policy with
    | skip =>
      cases hlength
    | catchUp =>
      cases hlength
    | backfill =>
      simp only [MissedPolicy.runs, length_cons] at hlength
      omega
  · exact hfirings.successive.increasing.sublist hsuffix.sublist

def afterEpoch (seconds : Nat) (h : seconds ≤ 1000) : OffsetDateTime :=
  ⟨seconds * nanosPerSecond, by simp only [minNanos, firstDay, nanosPerDay, nanosPerSecond]; omega,
    by simp only [maxNanos, endDay, nanosPerDay, nanosPerSecond]; omega⟩

def twoOfThree : Firings where
  scheduledFor := [afterEpoch 60 (by decide), afterEpoch 120 (by decide)]
  nextRunAt := afterEpoch 180 (by decide)
  dropped := 1

theorem two_of_three_are_accounted_for :
    ∃ later, FiringsUpTo (.interval everyMinute) epoch (afterEpoch 150 (by decide)) later ∧
      (∀ later', FiringsUpTo (.interval everyMinute) epoch (afterEpoch 150 (by decide)) later' →
        later' = later) ∧
      twoOfThree.scheduledFor ≠ [] ∧
      twoOfThree.scheduledFor.Pairwise (· < ·) ∧
      twoOfThree.scheduledFor <:+ epoch :: later ∧
      twoOfThree.scheduledFor.length = MissedPolicy.backfill.runs 2 (epoch :: later).length ∧
      twoOfThree.scheduledFor.length + twoOfThree.dropped = (epoch :: later).length :=
  plan_accounts_for_every_firing (.interval everyMinute) epoch (afterEpoch 150 (by decide))
    .backfill 2 twoOfThree (by decide +kernel)

end Accounting

end Scheduler
end StudioWeb
