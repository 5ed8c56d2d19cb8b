import StudioWeb.Scheduler.CronExpression
import Mathlib.Tactic.Ring

/-!
# What a late tick enqueues, and where the schedule goes next

The two policies of `scheduler/policy.rs` and the rule `plan`, which turns "this
is due" into the instants to enqueue and the next `next_run_at`.

`plan` walks the instants from the one that was due up to now, at most 1000 of
them, and asks the expression for the firing after now.  A cron answers with an
instant after now whatever was walked.  An interval answers with the instant one
gap after the last instant walked, so a backlog longer than the cap leaves the
schedule due again.
-/

namespace StudioWeb
namespace Scheduler

open Rust CivilTime List

/-- What to do when the previous run of a schedule has not finished. -/
inductive Concurrency where
  | allow
  | forbid
  | replace
deriving DecidableEq

/-- What to do about firings that came due while nothing was running. -/
inductive MissedPolicy where
  | skip
  | catchUp
  | backfill
deriving DecidableEq

namespace Concurrency

def asStr : Concurrency → String
  | .allow => "allow"
  | .forbid => "forbid"
  | .replace => "replace"

def parse (raw : String) : Outcome Concurrency :=
  match String.ofList (toLowercase (trim raw.toList)) with
  | "" => .ok .allow
  | "allow" => .ok .allow
  | "forbid" => .ok .forbid
  | "replace" => .ok .replace
  | other =>
    fail <| s!"unknown concurrency policy '{other}' " ++ "(expected allow | forbid | replace)"

end Concurrency

namespace MissedPolicy

def asStr : MissedPolicy → String
  | .skip => "skip"
  | .catchUp => "catch_up"
  | .backfill => "backfill"

def parse (raw : String) : Outcome MissedPolicy :=
  match String.ofList (toLowercase (trim raw.toList)) with
  | "" => .ok .skip
  | "skip" => .ok .skip
  | "catch_up" => .ok .catchUp
  | "catchup" => .ok .catchUp
  | "backfill" => .ok .backfill
  | other =>
    fail <| s!"unknown missed-schedule policy '{other}' " ++ "(expected skip | catch_up | backfill)"

end MissedPolicy

/-- What one tick decided for one schedule. -/
structure Firings where
  scheduledFor : List OffsetDateTime
  nextRunAt : OffsetDateTime
  dropped : Nat
deriving DecidableEq

/-- The cap on the instants one tick walks. -/
def maxWalk : Nat := 1000

/-- The missed instants after `cursor`, at most so many, none of them after
`now`. -/
def walk (expression : Expression) (now : OffsetDateTime) :
    Nat → OffsetDateTime → Outcome (List OffsetDateTime)
  | 0, _ => .ok []
  | room + 1, cursor => do
    let next ← expression.nextAfter cursor (some cursor)
    if now < next then
      .ok []
    else do
      let later ← walk expression now room next
      .ok (next :: later)

/-- The instants a tick enqueues out of the missed ones, and how many it drops. -/
def choose (policy : MissedPolicy) (maxCatchUpRuns : Int)
    (missed : List OffsetDateTime) (dueAt : OffsetDateTime) : List OffsetDateTime × Nat :=
  match policy with
  | .skip => ([missed.getLastD dueAt], missed.length - 1)
  | .catchUp => ([missed.getLastD dueAt], missed.length - 1)
  | .backfill =>
    let cap := (max maxCatchUpRuns 1).toNat
    if missed.length ≤ cap then
      (missed, 0)
    else
      (missed.drop (missed.length - cap), missed.length - cap)

/-- Decide what a due schedule should enqueue. -/
def plan (expression : Expression) (dueAt now : OffsetDateTime) (policy : MissedPolicy)
    (maxCatchUpRuns : Int) :
    Outcome Firings := do
  let later ← walk expression now (maxWalk - 1) dueAt
  let missed := dueAt :: later
  let nextRunAt ← expression.nextAfter now (some (missed.getLastD dueAt))
  let (scheduledFor, dropped) := choose policy maxCatchUpRuns missed dueAt
  .ok { scheduledFor := scheduledFor, nextRunAt := nextRunAt, dropped := dropped }

theorem plan_eq_ok_iff {expression : Expression} {dueAt now : OffsetDateTime}
    {policy : MissedPolicy} {maxCatchUpRuns : Int} {firings : Firings} :
    plan expression dueAt now policy maxCatchUpRuns = .ok firings ↔
    ∃ later, walk expression now (maxWalk - 1) dueAt = .ok later ∧
      expression.nextAfter now (some ((dueAt :: later).getLastD dueAt)) = .ok firings.nextRunAt ∧
      firings.scheduledFor = (choose policy maxCatchUpRuns (dueAt :: later) dueAt).1 ∧
      firings.dropped =
        (choose policy maxCatchUpRuns (dueAt :: later) dueAt).2 := by
  constructor
  · intro h
    obtain ⟨later, hwalk, h⟩ := bind_eq_ok_iff.mp h
    obtain ⟨next, hnext, h⟩ := bind_eq_ok_iff.mp h
    cases h
    exact ⟨later, hwalk, hnext, rfl, rfl⟩
  · rintro ⟨later, hwalk, hnext, hscheduled, hdropped⟩
    cases firings
    cases hscheduled
    cases hdropped
    exact bind_eq_ok_iff.mpr ⟨later, hwalk, bind_eq_ok_iff.mpr ⟨_, hnext, rfl⟩⟩

section IntervalWalk

variable {gap : Interval} {now : OffsetDateTime}

theorem Interval.nanos_pos (gap : Interval) : 0 < gap.every.nanos := by
  have := gap.minute_le
  simp only [Duration.nanos, nanosPerSecond]
  omega

theorem interval_nextAfter_eq_ok_iff {after last t : OffsetDateTime} :
    (Expression.interval gap).nextAfter after (some last) = .ok t ↔
    t.nanos = last.nanos + gap.every.nanos :=
  OffsetDateTime.add_eq_ok_iff

/-- What the walk of an interval has accounted for: it ends a whole number of
gaps after the cursor, and if it ended with room left the next gap is after
now. -/
theorem walk_interval :
    ∀ (room : Nat) {cursor : OffsetDateTime} {later : List OffsetDateTime},
      walk (.interval gap) now room cursor = .ok later →
      later.length ≤ room ∧
      (later.getLastD cursor).nanos = cursor.nanos + later.length * gap.every.nanos ∧
      (later.length < room → now.nanos < (later.getLastD cursor).nanos + gap.every.nanos)
  | 0, cursor, later, h => by
    cases h
    simp
  | room + 1, cursor, later, h => by
    obtain ⟨next, hnext, h⟩ := bind_eq_ok_iff.mp h
    have hnanos := interval_nextAfter_eq_ok_iff.mp hnext
    split_ifs at h with hafter
    · cases h
      rw [OffsetDateTime.lt_def] at hafter
      refine ⟨Nat.zero_le _, by simp, ?_⟩
      intro _
      simp only [getLastD_nil]
      omega
    · obtain ⟨tail, htail, h⟩ := bind_eq_ok_iff.mp h
      cases h
      obtain ⟨hlen, hlast, hroom⟩ := walk_interval room htail
      rw [getLastD_cons]
      refine ⟨by simpa using hlen, ?_, ?_⟩
      · rw [hlast, hnanos]
        push_cast [length_cons]
        ring
      · intro hlt
        apply hroom
        simpa using hlt

/-- While all the gaps walked stay before now, the walk takes every step it has
room for. -/
theorem walk_interval_full :
    ∀ (gap : Interval) (now : OffsetDateTime) (room : Nat) (cursor : OffsetDateTime),
      cursor.nanos + room * gap.every.nanos ≤ now.nanos →
      ∃ later, walk (.interval gap) now room cursor = .ok later ∧ later.length = room
  | _, _, 0, _, _ => ⟨[], rfl, rfl⟩
  | gap, now, room + 1, cursor, h => by
    have hpos := gap.nanos_pos
    have hsplit : ((room + 1 : Nat) : Int) * gap.every.nanos =
          room * gap.every.nanos + gap.every.nanos := by
      push_cast
      ring
    have hroom : 0 ≤ (room : Int) * gap.every.nanos := mul_nonneg (by omega) hpos.le
    have hmin := cursor.min_le
    have hmax := now.le_max
    let next : OffsetDateTime := ⟨cursor.nanos + gap.every.nanos, by omega, by omega⟩
    have hnext : (Expression.interval gap).nextAfter cursor (some cursor) = .ok next :=
      interval_nextAfter_eq_ok_iff.mpr rfl
    have hbefore : ¬ now < next := by
      rw [OffsetDateTime.lt_def]
      show ¬ now.nanos < cursor.nanos + gap.every.nanos
      omega
    obtain ⟨tail, htail, hlen⟩ :=
      walk_interval_full gap now room next (by
        show cursor.nanos + gap.every.nanos + room * gap.every.nanos ≤ now.nanos
        omega)
    refine ⟨next :: tail, ?_, by simp [hlen]⟩
    refine bind_eq_ok_iff.mpr ⟨next, hnext, ?_⟩
    rw [if_neg hbefore]
    exact bind_eq_ok_iff.mpr ⟨tail, htail, rfl⟩

end IntervalWalk

/-- The backlog a plan can clear: any backlog of a cron, and of an interval one
that is shorter than the walk. -/
def BacklogClears (expression : Expression) (dueAt now : OffsetDateTime) : Prop :=
  match expression with
  | .cron _ => True
  | .interval gap => now.nanos < dueAt.nanos + maxWalk * gap.every.nanos

instance (expression : Expression) (dueAt now : OffsetDateTime) :
    Decidable (BacklogClears expression dueAt now) :=
  match expression with
  | .cron _ => isTrue trivial
  | .interval gap =>
    inferInstanceAs (Decidable (now.nanos < dueAt.nanos + maxWalk * gap.every.nanos))

section ClearsNow

variable {dueAt now : OffsetDateTime} {policy : MissedPolicy} {maxCatchUpRuns : Int}

theorem plan_interval_clears {gap : Interval} {firings : Firings}
    (hclears : BacklogClears (.interval gap) dueAt now)
    (h : plan (.interval gap) dueAt now policy maxCatchUpRuns = .ok firings) :
    now < firings.nextRunAt := by
  obtain ⟨later, hwalk, hnext, _, _⟩ := plan_eq_ok_iff.mp h
  obtain ⟨hlen, hlast, hroom⟩ := walk_interval (maxWalk - 1) hwalk
  rw [getLastD_cons] at hnext
  have hnanos := interval_nextAfter_eq_ok_iff.mp hnext
  rw [OffsetDateTime.lt_def]
  rcases Nat.lt_or_ge later.length (maxWalk - 1) with hlt | hge
  · have := hroom hlt
    omega
  · -- the walk was cut off: the last instant is 999 gaps after the due one
    have hcut : later.length = maxWalk - 1 := Nat.le_antisymm hlen hge
    rw [hcut] at hlast
    simp only [BacklogClears, maxWalk] at hclears
    simp only [maxWalk] at hlast
    push_cast at hclears hlast
    omega

theorem exists_plan_of_not_clears {expression : Expression} (policy : MissedPolicy)
    (maxCatchUpRuns : Int) (h : ¬ BacklogClears expression dueAt now) :
    ∃ firings, plan expression dueAt now policy maxCatchUpRuns = .ok firings ∧
      firings.nextRunAt ≤ now := by
  cases expression with
  | cron =>
    exact absurd trivial h
  | interval gap =>
    have hbacklog : dueAt.nanos + 1000 * gap.every.nanos ≤ now.nanos := by
      simp only [BacklogClears, maxWalk] at h
      push_cast at h
      omega
    have hpos := gap.nanos_pos
    obtain ⟨later, hwalk, hlen⟩ :=
      walk_interval_full gap now 999 dueAt (by
        push_cast
        omega)
    obtain ⟨_, hlast, _⟩ := walk_interval 999 hwalk
    rw [hlen] at hlast
    push_cast at hlast
    have hmin := dueAt.min_le
    have hmax := now.le_max
    let next : OffsetDateTime := ⟨dueAt.nanos + 1000 * gap.every.nanos, by omega, by omega⟩
    have hnext : (Expression.interval gap).nextAfter now
            (some ((dueAt :: later).getLastD dueAt)) = .ok next := by
      rw [getLastD_cons, interval_nextAfter_eq_ok_iff]
      show dueAt.nanos + 1000 * gap.every.nanos = _
      omega
    let chosen := choose policy maxCatchUpRuns (dueAt :: later) dueAt
    refine ⟨⟨chosen.1, next, chosen.2⟩, ?_, hbacklog⟩
    exact plan_eq_ok_iff.mpr ⟨later, hwalk, hnext, rfl, rfl⟩

/-- **Where a plan leaves the schedule**: after now, exactly when the backlog
clears. -/
theorem plan_clears_now_iff (expression : Expression) (dueAt now : OffsetDateTime)
    (policy : MissedPolicy) (maxCatchUpRuns : Int) :
    (∀ firings, plan expression dueAt now policy maxCatchUpRuns = .ok firings →
        now < firings.nextRunAt)
      ↔
    BacklogClears expression dueAt now := by
  constructor
  · intro hplans
    by_contra hbacklog
    obtain ⟨firings, hplan, hle⟩ := exists_plan_of_not_clears policy maxCatchUpRuns hbacklog
    have hlt := hplans firings hplan
    rw [OffsetDateTime.lt_def] at hlt
    rw [OffsetDateTime.le_def] at hle
    omega
  · intro hclears firings hplan
    cases expression with
    | cron =>
      obtain ⟨_, _, hnext, _, _⟩ := plan_eq_ok_iff.mp hplan
      exact Cron.nextAfter_gt hnext
    | interval =>
      exact plan_interval_clears hclears hplan

end ClearsNow

/-- Every minute, due at the epoch, and a tick a thousand minutes later. -/
def everyMinute : Interval := ⟨⟨60, oneMinute.min_le, oneMinute.le_max⟩, by decide⟩

def epoch : OffsetDateTime := ⟨0, by decide, by decide⟩

def thousandMinutesLater : OffsetDateTime := ⟨60000 * nanosPerSecond, by decide, by decide⟩

/-- A minutely interval that slept a thousand minutes is due again at once. -/
theorem minutely_backlog_stays_due :
    ¬ ∀ (expression : Expression) (dueAt now : OffsetDateTime)
        (policy : MissedPolicy) (maxCatchUpRuns : Int),
      dueAt ≤ now →
      ∀ firings, plan expression dueAt now policy maxCatchUpRuns = .ok firings →
        now < firings.nextRunAt := by
  intro hall
  have hbacklog : ¬ BacklogClears (.interval everyMinute) epoch thousandMinutesLater := by
    decide
  obtain ⟨firings, hplan, hle⟩ := exists_plan_of_not_clears .skip 3 hbacklog
  have hlt := hall _ _ _ _ _ (by decide) firings hplan
  rw [OffsetDateTime.lt_def] at hlt
  rw [OffsetDateTime.le_def] at hle
  omega

end Scheduler
end StudioWeb
