import StudioWeb.Environments.DeployInvariant

/-!
# What runs where

`live_deployments` of the stored history against the runs that succeeded, in the order
in which they did.
-/

namespace StudioWeb
namespace Environments

open Scheduler (Uuid RunState)
open LabelledRuns List Function Deployment DeployWorld CappedHistory

/-- The history drops no record that is still queued or running, and none that says what
runs at its place: a success it drops has a newer one in front of it, or nothing runs
there and no older success of the place is left. -/
def KeepsWhatRuns (items : List Deployment) : Prop :=
  ∀ front x rest, items = front ++ x :: rest → spared front x = false →
    (x.state ≠ .queued ∧ x.state ≠ .running) ∧
    (x.state = .succeeded → (∃ y ∈ front, y.isSuccessAt x.place = true) ∨ (x.isDead = true ∧
        ∀ mid y behind, rest = mid ++ y :: behind → y.isSuccessAt x.place = true →
          spared (front ++ x :: mid) y = false))

theorem keepsWhatRuns_of_length_le {items : List Deployment} (h : items.length ≤ HISTORY) :
    KeepsWhatRuns items := by
  intro front x rest hitems hspared
  have hlen : front.length < HISTORY := by
    have := congrArg List.length hitems
    simp only [length_append, length_cons] at this
    omega
  simp [spared, CappedHistory.spared, hlen] at hspared

section Trimmed

variable {items : List Deployment} {x : Deployment} {place : Uuid × Uuid × String}

theorem mem_trimmed_of_going (h : KeepsWhatRuns items) (hmem : x ∈ items)
    (hstate : x.state = .queued) : x ∈ DeploymentList.trimmed items := by
  obtain ⟨front, rest, hitems⟩ := append_of_mem hmem
  refine mem_trimmed_iff.mpr ⟨front, rest, hitems, ?_⟩
  by_contra hspared
  rw [Bool.not_eq_true] at hspared
  exact (h front x rest hitems hspared).1.1 hstate

theorem successesAt_eq_nil_iff :
    successesAt items place = [] ↔ ∀ y ∈ items, ¬ y.isSuccessAt place = true := by
  unfold successesAt
  exact filter_eq_nil_iff

theorem successesAt_append (xs ys : List Deployment) :
    successesAt (xs ++ ys) place = successesAt xs place ++ successesAt ys place :=
  filter_append _ _

theorem exists_split_of_successesAt {more : List Deployment}
    (h : successesAt items place = x :: more) :
    ∃ front rest, items = front ++ x :: rest ∧ successesAt front place = [] ∧
      x.isSuccessAt place = true := by
  induction items with
  | nil => cases h
  | cons y items ih =>
    by_cases hy : y.isSuccessAt place = true
    · rw [successesAt_cons_of_pos hy] at h
      cases h
      exact ⟨[], items, rfl, rfl, hy⟩
    · rw [successesAt_cons_of_neg hy] at h
      obtain ⟨front, rest, hitems, hfront, hx⟩ := ih h
      refine ⟨y :: front, rest, by rw [hitems]; rfl, ?_, hx⟩
      rw [successesAt_cons_of_neg hy, hfront]

/-- Trimming keeps the first success of a place; or it is dead, and trimming keeps no
success of the place. -/
theorem successesAt_trimmed {more : List Deployment} (hkeeps : KeepsWhatRuns items)
    (h : successesAt items place = x :: more) :
    (∃ more', successesAt (DeploymentList.trimmed items) place = x :: more') ∨
      (x.isDead = true ∧ successesAt (DeploymentList.trimmed items) place = []) := by
  obtain ⟨front, rest, hitems, hfront, hx⟩ := exists_split_of_successesAt h
  have hplace : x.place = place := (isSuccessAt_iff.mp hx).2
  have hfront' : successesAt (keepSpared HISTORY isKept ownPlace [] front) place = [] := by
    rw [successesAt_eq_nil_iff] at hfront ⊢
    intro y hy
    exact hfront y ((keepSpared_sublist _ _).subset hy)
  have htrimmed : DeploymentList.trimmed items = keepSpared HISTORY isKept ownPlace [] front ++
        keepSpared HISTORY isKept ownPlace front (x :: rest) := by
    rw [trimmed_eq, hitems, keepSpared_append, nil_append]
  rw [htrimmed, successesAt_append, hfront', nil_append, keepSpared_cons]
  cases hspared : spared front x with
  | true =>
    left
    have hspared' : CappedHistory.spared HISTORY isKept ownPlace front x = true := hspared
    rw [if_pos hspared', successesAt_cons_of_pos hx]
    exact ⟨_, rfl⟩
  | false =>
    right
    have hspared' : ¬ CappedHistory.spared HISTORY isKept ownPlace front x = true := by
      rw [Bool.not_eq_true]
      exact hspared
    obtain ⟨_, hdropped⟩ := hkeeps front x rest hitems hspared
    rcases hdropped (isSuccessAt_iff.mp hx).1 with ⟨y, hy, hyx⟩ | ⟨hdead, hnone⟩
    · rw [hplace] at hyx
      exact absurd hyx (successesAt_eq_nil_iff.mp hfront y hy)
    · refine ⟨hdead, ?_⟩
      rw [if_neg hspared', successesAt_eq_nil_iff]
      intro y hy hyx
      obtain ⟨mid, behind, hrest, hyspared⟩ := mem_keepSpared_iff.mp hy
      rw [append_assoc, singleton_append] at hyspared
      have := hnone mid y behind hrest (hplace ▸ hyx)
      rw [spared] at this
      rw [this] at hyspared
      cases hyspared

end Trimmed

namespace DeployWorld

/-- What a step records, and what the call had read of it. -/
def written (w : DeployWorld) : DeployAction → Option (Option Deployment × Deployment)
  | .requests _ d isProtected chart => some (none, if isProtected then d.held chart else d)
  | .approves call =>
    match w.calls call with
    | .approving base value => some (some base, value)
    | _ => none
  | .declines call =>
    match w.calls call with
    | .declining base value => some (some base, value)
    | _ => none
  | .finishes call =>
    match w.calls call with
    | .finishing base value => some (some base, value)
    | _ => none
  | .writesBack call stored =>
    match w.calls call with
    | .writingBack ((base, value) :: _) => if stored then some (some base, value) else none
    | _ => none
  | _ => none

/-- The record is as the call read it, or as the call writes it. -/
def Unchanged (w : DeployWorld) (base value : Deployment) : Prop :=
  w.list.get value.id = some base ∨ w.list.get value.id = some value

def succeededAfter (w : DeployWorld) (id : Uuid) : List Deployment :=
  (w.succeeded.dropWhile fun s => s.id ≠ id).drop 1

/-- A success is written back before the later ones of its place. -/
def InOrder (w : DeployWorld) (value : Deployment) : Prop :=
  value.state = .succeeded →
    ∀ s ∈ w.succeededAfter value.id, s.place = value.place → s.id ∉ w.settled

instance (w : DeployWorld) (value : Deployment) : Decidable (w.InOrder value) :=
  inferInstanceAs (Decidable (value.state = .succeeded →
    ∀ s ∈ w.succeededAfter value.id, s.place = value.place → s.id ∉ w.settled))

/-- The condition on a step. -/
def LosesNothing (w : DeployWorld) (a : DeployAction) : Prop :=
  ∀ base value, w.written a = some (base, value) →
    (∀ b, base = some b → w.Unchanged b value) ∧ w.InOrder value ∧
      KeepsWhatRuns (w.list.putFirst value)

/-- A success leaves nothing running: an uninstall, or a preview that was removed. -/
def Dead (w : DeployWorld) (d : Deployment) : Prop := d.action = .uninstall ∨ d.id ∈ w.removed

instance (w : DeployWorld) (d : Deployment) : Decidable (w.Dead d) :=
  inferInstanceAs (Decidable (d.action = .uninstall ∨ d.id ∈ w.removed))

def lastAt (w : DeployWorld) (place : Uuid × Uuid × String) : Option Deployment :=
  (w.succeeded.filter fun s => s.place = place).getLast?

/-- No success of a place is still unread: its record says no run is going that has
succeeded, and no request or approval is about to say which run is its own. -/
structure Read (w : DeployWorld) (place : Uuid × Uuid × String) : Prop where
  stored : ∀ x ∈ w.list.items, x.place = place → x.state = .queued →
    ∀ r ∈ w.runs, x.runId = some r.id → r.state ≠ .succeeded
  calls : ∀ call base value, w.calls call = .finishing base value → value.place ≠ place

/-- The history answers what succeeded last at a place, or nothing when that is dead. -/
def LiveRight (w : DeployWorld) (place : Uuid × Uuid × String) : Prop :=
  (liveAt w.list.items place).map Deployment.id =
    ((w.lastAt place).toList.filter fun d => decide (¬ w.Dead d)).map Deployment.id

/-- The last success of a place that was written back. -/
def newest (w : DeployWorld) (place : Uuid × Uuid × String) : Option Deployment :=
  (w.succeeded.filter fun s => s.place = place && decide (s.id ∈ w.settled)).getLast?

/-- The first success the history has of a place is the last that was written back; or
that is dead, and the history has none. -/
def HeadOk (w : DeployWorld) (place : Uuid × Uuid × String) : Prop :=
  (w.newest place = none ∧ successesAt w.list.items place = []) ∨ ∃ h, w.newest place = some h ∧
      ((∃ x more, successesAt w.list.items place = x :: more ∧ x.id = h.id) ∨
        (w.Dead h ∧ successesAt w.list.items place = []))

/-- A run is named by its record, or is about to be. -/
def Carried (w : DeployWorld) (r : DeployRun) : Prop :=
  (∃ x ∈ w.list.items, x.id = r.deployment.id ∧ x.state = .queued ∧ x.runId = some r.id) ∨
    ∃ call base value, w.calls call = .finishing base value ∧
      value.id = r.deployment.id ∧ value.state = .queued ∧ value.runId = some r.id

/-- The invariant of runs that lose nothing. -/
structure Right (w : DeployWorld) : Prop where
  sound : w.Sound
  marks : ∀ x ∈ w.list.items, x.isRemoved = true ↔ x.id ∈ w.removed
  stays : ∀ x ∈ w.list.items, x.id ∈ w.settled → x.state = .succeeded
  heads : ∀ place, w.HeadOk place
  carried : ∀ r ∈ w.runs, r.state = .failed ∨ r.state = .cancelled ∨
    r.deployment.id ∈ w.settled ∨ w.Carried r

theorem right_start : start.Right := by
  refine ⟨sound_start, ?_, ?_, ?_, ?_⟩
  · intro x hx
    cases hx
  · intro x hx
    cases hx
  · intro place
    exact .inl ⟨rfl, rfl⟩
  · intro r hr
    cases hr

section Heads

variable
  {w t : DeployWorld}
  {value base x : Deployment}
  {place : Uuid × Uuid × String}

theorem successesAt_putFirst_of_neg (hvalue : ¬ value.isSuccessAt place = true)
    (hstored : ∀ x ∈ w.list.items, x.id = value.id → ¬ x.isSuccessAt place = true) :
    successesAt (w.list.putFirst value) place = successesAt w.list.items place := by
  unfold DeploymentList.putFirst
  rw [successesAt_cons_of_neg hvalue]
  unfold successesAt
  rw [filter_filter]
  apply filter_congr
  intro x hx
  by_cases hid : x.id = value.id
  · have hnot := hstored x hx hid
    rw [Bool.not_eq_true] at hnot
    simp [hnot]
  · simp [hid]

theorem Sound.split_succeeded (h : w.Sound) {id : Uuid} (hid : id ∈ w.succeeded.map Deployment.id) :
    ∃ before s after, w.succeeded = before ++ s :: after ∧ s.id = id ∧
      w.succeededAfter id = after ∧ ∀ y ∈ after, y.id ≠ id := by
  obtain ⟨s, hs, rfl⟩ := mem_map.mp hid
  obtain ⟨before, after, hsplit⟩ := append_of_mem hs
  have hnodup := h.succeeded_once
  rw [hsplit, map_append, map_cons, nodup_append] at hnodup
  obtain ⟨_, hafter, hdisjoint⟩ := hnodup
  rw [nodup_cons] at hafter
  refine ⟨before, s, after, hsplit, rfl, ?_, ?_⟩
  · have hbefore : ∀ y ∈ before, decide (y.id ≠ s.id) = true := by
      intro y hy
      rw [decide_eq_true_eq]
      intro heq
      exact hdisjoint y.id (mem_map_of_mem hy) s.id mem_cons_self heq
    unfold succeededAfter
    rw [hsplit, dropWhile_append_of_pos hbefore, dropWhile_cons_of_neg (by simp)]
    rfl
  · intro y hy heq
    exact hafter.1 (heq ▸ mem_map_of_mem hy)

theorem newest_record_self (h : w.Sound) (hvalue : w.CopyOk value)
    (hstate : value.state = .succeeded) (horder : w.InOrder value) :
    ∃ s, (w.record value).newest value.place = some s ∧ s.id = value.id ∧
      s ∈ w.succeeded := by
  obtain ⟨before, s, after, hsplit, hid, hafter, hother⟩ :=
    h.split_succeeded (hvalue.succeeded hstate)
  have hmem : s ∈ w.succeeded := by
    rw [hsplit]
    exact mem_append_right _ mem_cons_self
  have hplace : s.place = value.place := by
    obtain ⟨r, hr, hdep, _⟩ := (h.succeeded s).mp hmem
    exact h.place_eq (hdep ▸ h.runs_known r hr) hvalue.known hid
  refine ⟨s, ?_, hid, hmem⟩
  have hsettled : (w.record value).settled = w.settled ++ [value.id] := by
    simp only [record, hstate, if_true]
  have hsucceeded : (w.record value).succeeded = w.succeeded := rfl
  unfold newest
  rw [hsettled, hsucceeded, hsplit, filter_append]
  have hkept : (decide (s.place = value.place) &&
      decide (s.id ∈ w.settled ++ [value.id])) = true := by
    simp [hplace, hid]
  have hdropped : after.filter (fun s => s.place = value.place &&
      decide (s.id ∈ w.settled ++ [value.id])) = [] := by
    rw [filter_eq_nil_iff]
    intro y hy
    rw [Bool.and_eq_true, decide_eq_true_eq, decide_eq_true_eq, not_and]
    intro hyplace hymem
    rcases mem_append.mp hymem with hold | hnew
    · exact horder hstate y (hafter ▸ hy) hyplace hold
    · exact hother y hy (mem_singleton.mp hnew)
  rw [filter_cons, if_pos hkept, hdropped, getLast?_append]
  rfl

theorem newest_congr (hsucceeded : t.succeeded = w.succeeded)
    (hsettled : ∀ s ∈ w.succeeded, s.place = place → (s.id ∈ t.settled ↔ s.id ∈ w.settled)) :
    t.newest place = w.newest place := by
  unfold newest
  rw [hsucceeded]
  congr 1
  apply filter_congr
  intro s hs
  by_cases hplace : s.place = place
  · simp [hplace, hsettled s hs hplace]
  · simp [hplace]

theorem headOk_record_other (h : w.Right) (hvalue : w.CopyOk value)
    (hneg : ¬ value.isSuccessAt place = true)
    (hstored : ∀ x ∈ w.list.items, x.id = value.id → ¬ x.isSuccessAt place = true)
    (hkeeps : KeepsWhatRuns (w.list.putFirst value)) : (w.record value).HeadOk place := by
  have hput := successesAt_putFirst_of_neg hneg hstored
  have hnewest : (w.record value).newest place = w.newest place := by
    have hsucceeded : (w.record value).succeeded = w.succeeded := rfl
    apply newest_congr hsucceeded
    intro s hs hplace
    simp only [record]
    split
    next hstate =>
      have hne : s.id ≠ value.id := by
        intro hid
        obtain ⟨r, hr, hdep, _⟩ := (h.sound.succeeded s).mp hs
        have hsame := h.sound.place_eq (hdep ▸ h.sound.runs_known r hr) hvalue.known hid
        exact hneg (isSuccessAt_iff.mpr ⟨hstate, hsame ▸ hplace⟩)
      rw [mem_append, mem_singleton]
      exact or_iff_left hne
    next => rfl
  have hitems : (w.record value).list.items = DeploymentList.trimmed (w.list.putFirst value) := rfl
  unfold HeadOk
  rw [hnewest, hitems]
  rcases h.heads place with ⟨hnone, hempty⟩ | ⟨s, hs, ⟨x, more, hx, hid⟩ | ⟨hdead, hempty⟩⟩
  · refine .inl ⟨hnone, ?_⟩
    rw [← hput, successesAt_eq_nil_iff] at hempty
    rw [successesAt_eq_nil_iff]
    intro y hy
    exact hempty y ((trimmed_sublist _).subset hy)
  · refine .inr ⟨s, hs, ?_⟩
    rw [← hput] at hx
    rcases successesAt_trimmed hkeeps hx with ⟨more', hmore⟩ | ⟨hdead, hempty⟩
    · exact .inl ⟨x, more', hmore, hid⟩
    · refine .inr ⟨?_, hempty⟩
      have hxmem : x ∈ w.list.items := by
        rw [hput] at hx
        have : x ∈ successesAt w.list.items place := by
          rw [hx]
          exact mem_cons_self
        exact (mem_filter.mp this).1
      have hsmem : s ∈ w.succeeded := by
        have := mem_of_getLast? hs
        exact (mem_filter.mp this).1
      obtain ⟨r, hr, hdep, _⟩ := (h.sound.succeeded s).mp hsmem
      have hsame := h.sound.identity_eq (h.sound.copies x hxmem).known
        (hdep ▸ h.sound.runs_known r hr) hid
      have haction : x.action = s.action := congrArg (fun i => i.2.2.1) hsame
      unfold isDead at hdead
      rw [Bool.or_eq_true, decide_eq_true_eq] at hdead
      refine hdead.imp ?_ ?_
      · intro huninstall
        exact haction ▸ huninstall
      · intro hremoved
        exact hid ▸ (h.marks x hxmem).mp hremoved
  · refine .inr ⟨s, hs, .inr ⟨hdead, ?_⟩⟩
    rw [← hput, successesAt_eq_nil_iff] at hempty
    rw [successesAt_eq_nil_iff]
    intro y hy
    exact hempty y ((trimmed_sublist _).subset hy)

theorem headOk_record_self (h : w.Right) (hvalue : w.CopyOk value)
    (hstate : value.state = .succeeded) (horder : w.InOrder value) :
    (w.record value).HeadOk value.place := by
  obtain ⟨s, hnewest, hid, _⟩ := newest_record_self h.sound hvalue hstate horder
  refine .inr ⟨s, hnewest, .inl ?_⟩
  have hitems : (w.record value).list.items = DeploymentList.trimmed (w.list.putFirst value) := rfl
  have hspared : spared [] value = true := by
    simp [spared, CappedHistory.spared, HISTORY]
  have hspared' : CappedHistory.spared HISTORY isKept ownPlace [] value = true := hspared
  have hfirst : value.isSuccessAt value.place = true := isSuccessAt_iff.mpr ⟨hstate, rfl⟩
  rw [hitems, trimmed_eq]
  unfold DeploymentList.putFirst
  rw [keepSpared_cons, if_pos hspared', successesAt_cons_of_pos hfirst]
  exact ⟨value, _, rfl, hid.symm⟩

end Heads

section Steps

variable
  {w t : DeployWorld}
  {a : DeployAction}
  {value base x : Deployment}
  {r r' : DeployRun}

/-- What a write over an unchanged record leaves. -/
structure Keeps (w : DeployWorld) (value : Deployment) : Prop where
  copy : w.CopyOk value
  settled : value.id ∈ w.settled → value.state = .succeeded
  mark : value.isRemoved = true ↔ value.id ∈ w.removed
  order : w.InOrder value
  history : KeepsWhatRuns (w.list.putFirst value)

theorem isRemoved_congr (h : value.preview = base.preview) : value.isRemoved = base.isRemoved := by
  unfold isRemoved
  rw [h]

theorem keeps_of_unchanged (h : w.Right) (hrewrites : w.Rewrites base value)
    (hbase : base.state ≠ .succeeded) (hunchanged : w.Unchanged base value)
    (horder : w.InOrder value) (hkeeps : KeepsWhatRuns (w.list.putFirst value)) :
    w.Keeps value := by
  rcases hunchanged with hget | hget
  · obtain ⟨hmem, _⟩ := (get_eq_some_iff h.sound.stored).mp hget
    refine ⟨hrewrites.written, ?_, ?_, horder, hkeeps⟩
    · intro hsettled
      exact absurd (h.stays base hmem (hrewrites.id ▸ hsettled)) hbase
    · rw [isRemoved_congr hrewrites.preview, hrewrites.id]
      exact h.marks base hmem
  · obtain ⟨hmem, _⟩ := (get_eq_some_iff h.sound.stored).mp hget
    exact ⟨hrewrites.written, h.stays value hmem, h.marks value hmem, horder, hkeeps⟩

theorem keeps_of_written (h : w.Right) (hloses : w.LosesNothing a)
    (hwritten : w.written a = some (some base, value)) (hrewrites : w.Rewrites base value)
    (hbase : base.state ≠ .succeeded) : w.Unchanged base value ∧ w.Keeps value := by
  obtain ⟨hunchanged, horder, hkeeps⟩ := hloses (some base) value hwritten
  have hsame := hunchanged base rfl
  exact ⟨hsame, keeps_of_unchanged h hrewrites hbase hsame horder hkeeps⟩

theorem right_record (h : w.Right) (hkeeps : w.Keeps value) :
    (∀ x ∈ (w.record value).list.items, x.isRemoved = true ↔ x.id ∈ w.removed) ∧
    (∀ x ∈ (w.record value).list.items, x.id ∈ (w.record value).settled → x.state = .succeeded) ∧
    ∀ place, (w.record value).HeadOk place := by
  refine ⟨?_, ?_, ?_⟩
  · intro x hx
    rcases mem_record hx with rfl | ⟨hx, _⟩
    · exact hkeeps.mark
    · exact h.marks x hx
  · intro x hx hsettled
    have hsettled' : x.id ∈ w.settled ∨ (value.state = .succeeded ∧ x.id = value.id) := by
      simp only [record] at hsettled
      split at hsettled
      next hstate =>
        rcases mem_append.mp hsettled with hold | hnew
        · exact .inl hold
        · exact .inr ⟨hstate, mem_singleton.mp hnew⟩
      next => exact .inl hsettled
    rcases mem_record hx with rfl | ⟨hx, hid⟩
    · rcases hsettled' with hold | ⟨hstate, _⟩
      · exact hkeeps.settled hold
      · exact hstate
    · rcases hsettled' with hold | ⟨_, hsame⟩
      · exact h.stays x hx hold
      · exact absurd hsame hid
  · intro place
    by_cases hself : value.isSuccessAt place = true
    · obtain ⟨hstate, hplace⟩ := isSuccessAt_iff.mp hself
      rw [← hplace]
      exact headOk_record_self h hkeeps.copy hstate hkeeps.order
    · apply headOk_record_other h hkeeps.copy hself _ hkeeps.history
      intro x hx hid hsuccess
      obtain ⟨hstate, hplace⟩ := isSuccessAt_iff.mp hsuccess
      have hvalue : value.state = .succeeded := hkeeps.settled (hid ▸ h.sound.recorded x hx hstate)
      have hsame := h.sound.place_eq (h.sound.copies x hx).known hkeeps.copy.known hid
      exact hself (isSuccessAt_iff.mpr ⟨hvalue, hsame ▸ hplace⟩)

theorem carried_record (hcarried : w.Carried r) (hkeeps : KeepsWhatRuns (w.list.putFirst value)) :
    (w.record value).Carried r ∨ ∃ x ∈ w.list.items, x.id = value.id ∧ x.id = r.deployment.id ∧
        x.state = .queued ∧ x.runId = some r.id := by
  rcases hcarried with ⟨x, hx, hid, hstate, hrun⟩ | hcall
  · by_cases hsame : x.id = value.id
    · exact .inr ⟨x, hx, hsame, hid, hstate, hrun⟩
    · refine .inl (.inl ⟨x, ?_, hid, hstate, hrun⟩)
      have hput : x ∈ w.list.putFirst value :=
        mem_cons_of_mem _ (mem_filter.mpr ⟨hx, by simpa using hsame⟩)
      exact mem_trimmed_of_going hkeeps hput hstate
  · exact .inl (.inr hcall)

variable {call : Nat} {pc : CallPc} {d : Deployment}

theorem carried_setCall (hcarried : w.Carried r)
    (hpc : ∀ base value, w.calls call ≠ .finishing base value) : (w.setCall call pc).Carried r := by
  refine hcarried.imp_right ?_
  rintro ⟨c, base, value, hc, hrest⟩
  refine ⟨c, base, value, ?_, hrest⟩
  have hne : c ≠ call := by
    rintro rfl
    exact hpc base value hc
  simp only [setCall, update_of_ne hne]
  exact hc

/-- What `Right` says of the runs. -/
def AllCarried (w : DeployWorld) : Prop :=
  ∀ r ∈ w.runs, r.state = .failed ∨ r.state = .cancelled ∨ r.deployment.id ∈ w.settled ∨ w.Carried r

theorem carried_write (h : w.Right) (hkeeps : w.Keeps value)
    (hpc : ∀ base value, w.calls call ≠ .finishing base value)
    (hown : ∀ r ∈ w.runs, ∀ x ∈ w.list.items, x.id = value.id → x.id = r.deployment.id →
      x.state = .queued → x.runId = some r.id →
        r.state = .failed ∨ r.state = .cancelled ∨ value.state = .succeeded ∨
          (value.state = .queued ∧ value.runId = some r.id)) :
    ((w.record value).setCall call pc).AllCarried := by
  intro r hr
  have hsettled : ∀ id ∈ w.settled, id ∈ ((w.record value).setCall call pc).settled := by
    intro id hid
    simp only [setCall, record]
    split
    · exact mem_append_left _ hid
    · exact hid
  rcases h.carried r hr with hfailed | hcancelled | hold | hcarried
  · exact .inl hfailed
  · exact .inr (.inl hcancelled)
  · exact .inr (.inr (.inl (hsettled _ hold)))
  · rcases carried_record hcarried hkeeps.history with hrecord | ⟨x, hx, hid, hdep, hq, hrun⟩
    · exact .inr (.inr (.inr (carried_setCall hrecord hpc)))
    · rcases hown r hr x hx hid hdep hq hrun with hfailed | hcancelled | hstate | ⟨hv, hvrun⟩
      · exact .inl hfailed
      · exact .inr (.inl hcancelled)
      · refine .inr (.inr (.inl ?_))
        simp only [setCall, record, hstate, if_true]
        exact mem_append_right _ (mem_singleton.mpr (hdep.symm.trans hid))
      · refine .inr (.inr (.inr (.inl ⟨value, mem_record_self _ _, ?_, hv, hvrun⟩)))
        exact hid.symm.trans hdep

theorem stored_of_unchanged (h : w.Sound) (hunchanged : w.Unchanged base value)
    (hx : x ∈ w.list.items) (hid : x.id = value.id) : x = base ∨ x = value := by
  have hget : w.list.get value.id = some x := (get_eq_some_iff h.stored).mpr ⟨hx, hid⟩
  refine hunchanged.imp ?_ ?_
  · intro hbase
    exact Option.some.inj (hget.symm.trans hbase)
  · intro hvalue
    exact Option.some.inj (hget.symm.trans hvalue)

theorem carried_decision (h : w.Right) (hkeeps : w.Keeps value)
    (hunchanged : w.Unchanged base value) (hbase : base.state = .awaitingApproval)
    (hpc : ∀ base value, w.calls call ≠ .finishing base value) :
    ((w.record value).setCall call pc).AllCarried := by
  refine carried_write h hkeeps hpc ?_
  intro r _ x hx hxid _ hq hxrun
  rcases stored_of_unchanged h.sound hunchanged hx hxid with rfl | rfl
  · rw [hbase] at hq
    cases hq
  · exact .inr (.inr (.inr ⟨hq, hxrun⟩))

theorem right_setCall (h : w.Right) (hsound : (w.setCall call pc).Sound)
    (hpc : ∀ base value, w.calls call ≠ .finishing base value) : (w.setCall call pc).Right := by
  refine ⟨hsound, h.marks, h.stays, h.heads, ?_⟩
  intro r hr
  exact (h.carried r hr).imp_right (Or.imp_right
    (Or.imp_right fun hcarried => carried_setCall hcarried hpc))

theorem right_write (h : w.Right)
    (hsound : ((w.record value).setCall call pc).Sound) (hkeeps : w.Keeps value)
    (hcarried : ((w.record value).setCall call pc).AllCarried) :
    ((w.record value).setCall call pc).Right := by
  obtain ⟨hmarks, hstays, hheads⟩ := right_record h hkeeps
  exact ⟨hsound, hmarks, hstays, hheads, hcarried⟩

theorem keeps_of_new (h : w.Right) (hnew : IsNew d)
    (hid : d.id ∉ w.asked.map Deployment.id) (hvalue : value.identity = d.identity)
    (hpreview : value.preview = d.preview) (hstate : value.state ≠ .succeeded)
    (hrun : value.runId = none) (hkeeps : KeepsWhatRuns (w.list.putFirst value)) :
    (w.asking d).Keeps value := by
  have hvid : value.id = d.id := congrArg Prod.fst hvalue
  refine ⟨copyOk_asked hstate hrun hvalue, ?_, ?_, fun hs => absurd hs hstate, hkeeps⟩
  · intro hsettled
    obtain ⟨s, hs, hsid⟩ := mem_map.mp (h.sound.settled _ hsettled)
    obtain ⟨r, hr, hdep, _⟩ := (h.sound.succeeded s).mp hs
    obtain ⟨o, ho, hsame⟩ := mem_map.mp (h.sound.runs_known r hr)
    have hoid : o.id = d.id := by
      have hor : o.id = r.deployment.id := congrArg Prod.fst hsame
      rw [hor, hdep, hsid, hvid]
    exact absurd (mem_map.mpr ⟨o, ho, hoid⟩) hid
  · rw [isRemoved_congr hpreview, hnew.removed, hvid]
    constructor
    · intro hfalse
      cases hfalse
    · intro hremoved
      exact absurd (h.sound.removed _ hremoved) hid

theorem right_asking (h : w.Right) (hid : d.id ∉ w.asked.map Deployment.id) :
    (w.asking d).Right :=
  ⟨sound_asking h.sound hid, h.marks, h.stays, h.heads, h.carried⟩

theorem not_stored_of_new (h : w.Sound) (hid : d.id ∉ w.asked.map Deployment.id)
    (hx : x ∈ w.list.items) : x.id ≠ d.id := by
  intro heq
  obtain ⟨o, ho, hsame⟩ := mem_map.mp (h.copies x hx).known
  have hox : o.id = x.id := congrArg Prod.fst hsame
  exact hid (mem_map.mpr ⟨o, ho, hox.trans heq⟩)

theorem right_ran (h : w.Right) (hgoes : w.GoesOn r r') : (w.ran r').Right := by
  have hfresh : r'.deployment.id ∉ w.settled := by
    intro hsettled
    obtain ⟨s, hs, hsid⟩ := mem_map.mp (h.sound.settled _ hsettled)
    obtain ⟨r₁, hr₁, hdep, hstate⟩ := (h.sound.succeeded s).mp hs
    have hsame : r₁ = r := by
      apply h.sound.run_eq hr₁ hgoes.mem
      rw [hdep, hsid, hgoes.deployment]
    have hgoing := hgoes.going
    rw [← hsame, hstate] at hgoing
    cases hgoing
  refine ⟨sound_ran h.sound hgoes, h.marks, h.stays, ?_, ?_⟩
  · intro place
    have hnewest : (w.ran r').newest place = w.newest place := by
      have hsettled : (w.ran r').settled = w.settled := rfl
      unfold newest
      rw [hsettled]
      by_cases hstate : r'.state = .succeeded
      · have hsucceeded : (w.ran r').succeeded = w.succeeded ++ [r'.deployment] := by
          simp only [ran, if_pos hstate]
        rw [hsucceeded, filter_append]
        have hnone : [r'.deployment].filter
            (fun s => s.place = place && decide (s.id ∈ w.settled)) = [] := by
          simp [hfresh]
        rw [hnone, append_nil]
      · have hsucceeded : (w.ran r').succeeded = w.succeeded := by
          simp only [ran, if_neg hstate]
        rw [hsucceeded]
    have hhead := h.heads place
    unfold HeadOk at hhead ⊢
    rw [hnewest]
    exact hhead
  · intro x hx
    rcases mem_setRun hx with rfl | ⟨hx, _⟩
    · have hold := h.carried r hgoes.mem
      rw [← hgoes.deployment] at hold
      rcases hold with hfailed | hcancelled | hsettled | hcarried
      · have hgoing := hgoes.going
        rw [hfailed] at hgoing
        cases hgoing
      · have hgoing := hgoes.going
        rw [hcancelled] at hgoing
        cases hgoing
      · exact absurd hsettled hfresh
      · refine .inr (.inr (.inr ?_))
        unfold Carried at hcarried ⊢
        rw [hgoes.deployment, hgoes.id]
        exact hcarried
    · exact h.carried x hx

/-- The sweep's mark on a record that is the one removed, and no other. -/
def marked (id : Uuid) (removedAt : String) (error : Option String) (x : Deployment) : Deployment :=
  if x.id = id then markRemoval removedAt error x else x

theorem marked_same (id : Uuid) (removedAt : String) (error : Option String) (x : Deployment) :
    (marked id removedAt error x).id = x.id ∧ (marked id removedAt error x).state = x.state ∧
      (marked id removedAt error x).runId = x.runId ∧
      (marked id removedAt error x).place = x.place := by
  unfold marked
  split <;> exact ⟨rfl, rfl, rfl, rfl⟩

theorem isRemoved_markRemoval {removedAt : String} {error : Option String} {x : Deployment}
    (hpreview : x.preview.isSome = true) :
    (markRemoval removedAt error x).isRemoved = true ↔
      x.isRemoved = true ∨ error = none := by
  obtain ⟨p, hp⟩ := Option.isSome_iff_exists.mp hpreview
  cases error with
  | none => simp [markRemoval, isRemoved, hp]
  | some => simp [markRemoval, isRemoved, hp]

theorem right_removing (h : w.Right) {id : Uuid} {removedAt : String} {error : Option String}
    (hsound : (w.removing id removedAt error).Sound) (hmem : d ∈ w.list.items) (hid : d.id = id)
    (hlive : d.isLivePreview = true) : (w.removing id removedAt error).Right := by
  have hitems : (w.removing id removedAt error).list.items =
      w.list.items.map (marked id removedAt error) := rfl
  have hremoved : ∀ y, y ∈ (w.removing id removedAt error).removed ↔
      y ∈ w.removed ∨ (error = none ∧ y = id) := by
    intro y
    cases error with
    | none => simp [removing]
    | some => simp [removing]
  have hpreview : d.preview.isSome = true := by
    unfold isLivePreview at hlive
    cases hp : d.preview with
    | none =>
      rw [hp] at hlive
      cases hlive
    | some => rfl
  refine ⟨hsound, ?_, ?_, ?_, ?_⟩
  · intro x hx
    rw [hitems] at hx
    obtain ⟨y, hy, rfl⟩ := mem_map.mp hx
    rw [(marked_same id removedAt error y).1, hremoved]
    by_cases hyid : y.id = id
    · have hyd : y = d :=
        inj_on_of_nodup_map h.sound.stored hy hmem (hyid.trans hid.symm)
      have hmarked : marked id removedAt error y = markRemoval removedAt error y :=
        if_pos hyid
      rw [hmarked, isRemoved_markRemoval (by rw [hyd]; exact hpreview), h.marks y hy]
      simp [hyid]
    · have hmarked : marked id removedAt error y = y := if_neg hyid
      rw [hmarked, h.marks y hy]
      simp [hyid]
  · intro x hx hsettled
    rw [hitems] at hx
    obtain ⟨y, hy, rfl⟩ := mem_map.mp hx
    obtain ⟨hyid, hystate, _⟩ := marked_same id removedAt error y
    rw [hystate]
    exact h.stays y hy (hyid ▸ hsettled)
  · intro place
    have hnewest : (w.removing id removedAt error).newest place = w.newest place := rfl
    have hsuccesses : successesAt (w.removing id removedAt error).list.items place =
        (successesAt w.list.items place).map (marked id removedAt error) := by
      rw [hitems]
      unfold successesAt
      rw [filter_map]
      congr 1
      apply filter_congr
      intro y _
      obtain ⟨_, hystate, _, hyplace⟩ := marked_same id removedAt error y
      simp [isSuccessAt, hystate, hyplace]
    unfold HeadOk
    rw [hnewest, hsuccesses]
    rcases h.heads place with ⟨hnone, hempty⟩ | ⟨s, hs, ⟨x, more, hx, hsid⟩ | ⟨hdead, hempty⟩⟩
    · exact .inl ⟨hnone, by rw [hempty]; rfl⟩
    · refine .inr ⟨s, hs, .inl ⟨marked id removedAt error x,
        more.map (marked id removedAt error), ?_, ?_⟩⟩
      · rw [hx]
        rfl
      · rw [(marked_same id removedAt error x).1]
        exact hsid
    · refine .inr ⟨s, hs, .inr ⟨?_, by rw [hempty]; rfl⟩⟩
      exact hdead.imp_right fun hold => (hremoved _).mpr (.inl hold)
  · intro r hr
    refine (h.carried r hr).imp_right (Or.imp_right (Or.imp_right ?_))
    rintro (⟨x, hx, hxid, hstate, hrun⟩ | hcall)
    · obtain ⟨hmid, hmstate, hmrun, _⟩ := marked_same id removedAt error x
      refine .inl ⟨marked id removedAt error x, ?_, ?_, ?_, ?_⟩
      · rw [hitems]
        exact mem_map_of_mem hx
      · rw [hmid]
        exact hxid
      · rw [hmstate]
        exact hstate
      · rw [hmrun]
        exact hrun
    · exact .inr hcall

theorem right_steps (h : w.Right) (hloses : w.LosesNothing a) (hsteps : Steps w a t) : t.Right := by
  have hsound := sound_steps h.sound hsteps
  cases hsteps with
  | nothing => exact h
  | holds _ d chart hnew hid =>
    obtain ⟨_, _, hkeeps⟩ := hloses none (d.held chart) rfl
    have hasked := right_asking h hid
    have hstate : (d.held chart).state ≠ .succeeded := by
      intro hs
      cases hs
    have hrecord : (w.asking d).Keeps (d.held chart) :=
      keeps_of_new h hnew hid rfl rfl hstate hnew.runId hkeeps
    obtain ⟨hmarks, hstays, hheads⟩ := right_record hasked hrecord
    refine ⟨hsound, hmarks, hstays, hheads, ?_⟩
    intro r hr
    refine (hasked.carried r hr).imp_right (Or.imp_right ?_)
    rintro (hsettled | hcarried)
    · exact .inl hsettled
    · right
      rcases carried_record hcarried hkeeps with hafter | ⟨x, hx, hxid, _⟩
      · exact hafter
      · exact absurd hxid (not_stored_of_new h.sound hid hx)
  | asks call d _ hnew hid hpc =>
    obtain ⟨_, _, hkeeps⟩ := hloses none d rfl
    have hstate : d.state ≠ .succeeded := by
      rw [hnew.state]
      intro hs
      cases hs
    have hrecord := keeps_of_new h hnew hid rfl rfl hstate hnew.runId hkeeps
    apply right_write (right_asking h hid) hsound hrecord
    apply carried_write (right_asking h hid) hrecord
    · intro base value hcall
      have hidle : (w.asking d).calls call = .idle := hpc
      rw [hidle] at hcall
      cases hcall
    · intro r _ x hx hxid _ _ _
      exact absurd hxid (not_stored_of_new h.sound hid hx)
  | decides _ _ _ _ _ _ _ _ _ hpc =>
    exact right_setCall h hsound (by simp [hpc])
  | approves call _ _ hpc =>
    have hok := h.sound.calls call
    rw [hpc] at hok
    obtain ⟨hrewrites, hbase, _⟩ := hok
    obtain ⟨hunchanged, hrecord⟩ :=
      keeps_of_written h hloses (by simp only [written, hpc]) hrewrites (by simp [hbase])
    exact right_write h hsound hrecord (carried_decision h hrecord hunchanged hbase (by simp [hpc]))
  | declines call _ _ hpc =>
    have hok := h.sound.calls call
    rw [hpc] at hok
    obtain ⟨hrewrites, hbase, _⟩ := hok
    obtain ⟨hunchanged, hrecord⟩ :=
      keeps_of_written h hloses (by simp only [written, hpc]) hrewrites (by simp [hbase])
    obtain ⟨hmarks, hstays, hheads⟩ := right_record h hrecord
    exact ⟨hsound, hmarks, hstays, hheads,
      carried_decision h hrecord hunchanged hbase (by simp [hpc])⟩
  | enqueues call fresh d hpc =>
    have hok := h.sound.calls call
    rw [hpc] at hok
    obtain ⟨_, hstate, _⟩ := hok
    refine ⟨hsound, h.marks, h.stays, h.heads, ?_⟩
    have hnot : ∀ base value, w.calls call ≠ .finishing base value := by simp [hpc]
    have hold : ∀ r ∈ w.runs, r.state = .failed ∨ r.state = .cancelled ∨
        r.deployment.id ∈ w.settled ∨ ((w.queued d fresh).setCall call
          (.finishing d { d with runId := some (enqueueRun w.runs d fresh).2 })).Carried r := by
      intro r hr
      refine (h.carried r hr).imp_right (Or.imp_right (Or.imp_right ?_))
      intro hcarried
      have hqueued : (w.queued d fresh).Carried r := hcarried
      exact carried_setCall hqueued hnot
    intro r hr
    rcases enqueueRun_cases w.runs d fresh with ⟨_, _, _, henqueue⟩ | ⟨_, henqueue⟩
    · apply hold
      simpa [setCall, queued, henqueue] using hr
    · have hruns : r ∈ w.runs ++ [⟨fresh, d, .queued, none, none⟩] := by
        simpa [setCall, queued, henqueue] using hr
      rcases mem_append.mp hruns with hr | hr
      · exact hold r hr
      · refine .inr (.inr (.inr (.inr ⟨call, d,
          { d with runId := some (enqueueRun w.runs d fresh).2 }, ?_, ?_, ?_, ?_⟩)))
        · simp only [setCall, update_self]
        · rw [mem_singleton.mp hr]
        · exact hstate
        · rw [mem_singleton.mp hr, henqueue]
  | enqueueFails _ _ _ hpc =>
    exact right_setCall h hsound (by simp [hpc])
  | finishes call base value hpc =>
    have hok := h.sound.calls call
    rw [hpc] at hok
    have hfinishes : w.Finishes base value := hok
    obtain ⟨hunchanged, hrecord⟩ := keeps_of_written h hloses (by simp only [written, hpc])
      hfinishes.rewrites (by simp [hfinishes.state])
    apply right_write h hsound hrecord
    intro r hr
    refine (h.carried r hr).imp_right (Or.imp_right ?_)
    rintro (hsettled | hcarried)
    · left
      simp only [setCall, record]
      split
      · exact mem_append_left _ hsettled
      · exact hsettled
    · right
      rcases hcarried with ⟨x, hx, hxid, hq, hxrun⟩ | ⟨c, b, v, hc, hvid, hvq, hvrun⟩
      · by_cases hsame : x.id = value.id
        · rcases stored_of_unchanged h.sound hunchanged hx hsame with rfl | rfl
          · rw [hfinishes.runId] at hxrun
            cases hxrun
          · exact .inl ⟨x, mem_record_self _ _, hxid, hq, hxrun⟩
        · refine .inl ⟨x, ?_, hxid, hq, hxrun⟩
          have hput : x ∈ w.list.putFirst value :=
            mem_cons_of_mem _ (mem_filter.mpr ⟨hx, by simpa using hsame⟩)
          exact mem_trimmed_of_going hrecord.history hput hq
      · by_cases hcall : c = call
        · rw [hcall, hpc] at hc
          obtain ⟨_, rfl⟩ := CallPc.finishing.inj hc
          exact .inl ⟨value, mem_record_self _ _, hvid, hvq, hvrun⟩
        · refine .inr ⟨c, b, v, ?_, hvid, hvq, hvrun⟩
          simp only [setCall, update_of_ne hcall]
          exact hc
  | reads _ _ _ _ hpc =>
    exact right_setCall h hsound (by simp [hpc])
  | wrote _ _ hpc =>
    exact right_setCall h hsound (by simp [hpc])
  | writesBack call base value _ hpc =>
    have hok := h.sound.calls call
    rw [hpc] at hok
    have hended : w.Ended base value := hok (base, value) mem_cons_self
    have hbase : base.state ≠ .succeeded := by
      intro hs
      rcases hended.going with hg | hg
      · rw [hs] at hg
        cases hg
      · rw [hs] at hg
        cases hg
    obtain ⟨hunchanged, hrecord⟩ :=
      keeps_of_written h hloses (by simp only [written, hpc, if_true]) hended.rewrites hbase
    apply right_write h hsound hrecord
    apply carried_write h hrecord (by simp [hpc])
    · intro r hr x hx hxid hdep hq hxrun
      rcases stored_of_unchanged h.sound hunchanged hx hxid with rfl | rfl
      · obtain ⟨r', hr', _, hdep', hterminal, hvalue⟩ := hended.run
        have hsame : r' = r := h.sound.run_eq hr' hr (hdep'.trans hdep)
        rw [hsame] at hterminal hvalue
        rw [hvalue]
        cases hrs : r.state with
        | queued =>
          rw [hrs] at hterminal
          cases hterminal
        | running =>
          rw [hrs] at hterminal
          cases hterminal
        | succeeded => exact .inr (.inr (.inl rfl))
        | failed => exact .inl rfl
        | cancelled => exact .inr (.inl rfl)
      · exact .inr (.inr (.inr ⟨hq, hxrun⟩))
  | givesUp _ _ _ _ hpc =>
    exact right_setCall h hsound (by simp [hpc])
  | starts _ _ _ hgoes =>
    exact right_ran h hgoes
  | ends _ _ _ _ _ _ hgoes =>
    exact right_ran h hgoes
  | removes _ _ _ _ hmem hid hlive =>
    exact right_removing h hsound hmem hid hlive

theorem settled_of_read (h : w.Right) {place : Uuid × Uuid × String} (hread : w.Read place)
    {s : Deployment} (hs : s ∈ w.succeeded) (hplace : s.place = place) : s.id ∈ w.settled := by
  obtain ⟨r, hr, hdep, hstate⟩ := (h.sound.succeeded s).mp hs
  have hknown : Known w.asked s := hdep ▸ h.sound.runs_known r hr
  rcases h.carried r hr with hfailed | hcancelled | hsettled | hcarried
  · rw [hstate] at hfailed
    cases hfailed
  · rw [hstate] at hcancelled
    cases hcancelled
  · exact hdep ▸ hsettled
  · exfalso
    rw [Carried, hdep] at hcarried
    rcases hcarried with ⟨x, hx, hid, hq, hrun⟩ | ⟨call, base, value, hcall, hid, _, _⟩
    · have hxplace := h.sound.place_eq (h.sound.copies x hx).known hknown hid
      exact hread.stored x hx (hxplace.trans hplace) hq r hr hrun hstate
    · have hok := h.sound.calls call
      rw [hcall] at hok
      have hfinishes : w.Finishes base value := hok
      have hvplace := h.sound.place_eq hfinishes.rewrites.written.known hknown hid
      exact hread.calls call base value hcall (hvplace.trans hplace)

theorem liveRight_of_right (h : w.Right) {place : Uuid × Uuid × String} (hread : w.Read place) :
    w.LiveRight place := by
  have hnewest : w.newest place = w.lastAt place := by
    unfold newest lastAt
    congr 1
    apply filter_congr
    intro s hs
    by_cases hplace : s.place = place
    · simp [hplace, settled_of_read h hread hs hplace]
    · simp [hplace]
  unfold LiveRight
  rw [liveAt_eq, ← hnewest]
  rcases h.heads place with ⟨hnone, hempty⟩ | ⟨s, hs, ⟨x, more, hx, hid⟩ | ⟨hdead, hempty⟩⟩
  · rw [hnone, hempty]
    rfl
  · have hxmem : x ∈ w.list.items := by
      have hfirst : x ∈ successesAt w.list.items place := by
        rw [hx]
        exact mem_cons_self
      exact (mem_filter.mp hfirst).1
    have hsmem : s ∈ w.succeeded := (mem_filter.mp (mem_of_getLast? hs)).1
    obtain ⟨r, hr, hdep, _⟩ := (h.sound.succeeded s).mp hsmem
    have hsame := h.sound.identity_eq (h.sound.copies x hxmem).known
      (hdep ▸ h.sound.runs_known r hr) hid
    have haction : x.action = s.action := congrArg (fun i => i.2.2.1) hsame
    have hdead : x.isDead = decide (w.Dead s) := by
      have hmark : x.isRemoved = decide (s.id ∈ w.removed) := by
        rw [Bool.eq_iff_iff, decide_eq_true_eq, ← hid]
        exact h.marks x hxmem
      rw [Bool.eq_iff_iff, decide_eq_true_eq]
      unfold isDead Dead
      rw [haction, hmark, Bool.or_eq_true, decide_eq_true_eq, decide_eq_true_eq]
    rw [hs, hx, head?_cons]
    by_cases hgone : w.Dead s
    · simp [hdead, hgone]
    · simp [hdead, hgone, hid]
  · rw [hs, hempty]
    simp [hdead]

end Steps

end DeployWorld

open DeployWorld

/-- **What runs where.**  In a run that loses nothing, the history answers at every place
what succeeded last there, or nothing when that was an uninstall or a preview since
removed, as soon as no success of the place is unread. -/
theorem what_runs_where {actions : List DeployAction} {w : DeployWorld}
    (hrun : runActions step .start actions = some w)
    (hloses : EveryStep step (fun s a _ => s.LosesNothing a) .start actions) :
    ∀ place, w.Read place → w.LiveRight place := by
  have hpres : ∀ s a t, s.Right → step s a = some t → s.LosesNothing a →
      t.Right := by
    intro s a t hright hstep hstepLoses
    exact right_steps hright hstepLoses (steps_of_step hstep)
  have hright : w.Right := runActions_invariant hpres right_start hloses hrun
  intro place hread
  exact liveRight_of_right hright hread

private def shopPlace : Uuid × Uuid × String :=
  (⟨"shop"⟩, ⟨"dev"⟩, "shop-dev")

/-- A request, queued as a run. -/
private def installs (id run : String) : List DeployAction :=
  [.requests 0 (shopInstall id) false none, .enqueues 0 ⟨run⟩, .finishes 0]

private def succeedsNow (run : String) : DeployAction :=
  .ends ⟨run⟩ .succeeded none (some "deployed")

private def readsAll : DeployAction :=
  .reads 0 (fun _ => true) none none

/-- Two installs, the first read before the second succeeds. -/
private def readEach : List DeployAction :=
  installs "d1" "r1" ++ [succeedsNow "r1", readsAll, .writesBack 0 true, .writesBack 0 true] ++
    installs "d2" "r2" ++ [succeedsNow "r2", readsAll, .writesBack 0 true, .writesBack 0 true]

private def readBoth : List DeployAction :=
  installs "d1" "r1" ++ installs "d2" "r2" ++ [succeedsNow "r1", succeedsNow "r2", readsAll,
    .writesBack 0 true, .writesBack 0 true, .writesBack 0 true]

private def losesNothingCheck (w : DeployWorld) (a : DeployAction) : Bool :=
  match w.written a with
  | none => true
  | some (base, value) =>
    (base.all fun b => w.list.get value.id = some b || w.list.get value.id = some value) &&
      decide (w.InOrder value) && decide ((w.list.putFirst value).length ≤ HISTORY)

private theorem losesNothing_of_check {w : DeployWorld} {a : DeployAction}
    (h : losesNothingCheck w a = true) : w.LosesNothing a := by
  intro base value hwritten
  unfold losesNothingCheck at h
  rw [hwritten] at h
  simp only [Bool.and_eq_true, decide_eq_true_eq] at h
  obtain ⟨⟨hbase, horder⟩, hlen⟩ := h
  refine ⟨?_, horder, keepsWhatRuns_of_length_le hlen⟩
  rintro b rfl
  simpa [Unchanged] using hbase

private theorem read_of_idle {w : DeployWorld} {place : Uuid × Uuid × String}
    (hstored : ∀ x ∈ w.list.items, x.state ≠ .queued) (hcalls : ∀ call, w.calls call = .idle) :
    w.Read place := by
  refine ⟨fun x hx _ hstate => absurd hstate (hstored x hx), ?_⟩
  intro call base value hcall
  rw [hcalls call] at hcall
  cases hcall

/-- Two installs in turn, each read before the next. -/
theorem what_runs_where_in_turn :
    ∃ w, runActions step .start readEach = some w ∧
      (liveAt w.list.items shopPlace).map Deployment.id = [⟨"d2"⟩] ∧
      w.LiveRight shopPlace := by
  have hrun : runActions step .start readEach = some (reached step .start readEach) :=
    runActions_reached (by decide)
  have hpasses : passes step losesNothingCheck .start readEach = true := by
    decide
  have hloses : EveryStep step (fun s a _ => s.LosesNothing a) .start readEach := by
    refine EveryStep.of_passes ?_ hpasses
    intro s a _ h
    exact losesNothing_of_check h
  refine ⟨_, hrun, by decide, what_runs_where hrun hloses shopPlace ?_⟩
  apply read_of_idle
  · decide
  · intro call
    cases call with
    | zero => rfl
    | succ => rfl

/-- One read that finds two successes of a place writes the older one back last. -/
theorem written_back_in_reverse :
    ¬ ∀ actions w, runActions step .start actions = some w →
      ∀ place, w.Read place → w.LiveRight place := by
  intro hclaim
  have hrun : runActions step .start readBoth = some (reached step .start readBoth) :=
    runActions_reached (by decide)
  have hread : (reached step .start readBoth).Read shopPlace := by
    apply read_of_idle
    · decide
    · intro call
      cases call with
      | zero => rfl
      | succ => rfl
  have hlive := hclaim readBoth _ hrun shopPlace hread
  have hanswer : (liveAt (reached step .start readBoth).list.items shopPlace).map
      Deployment.id = [⟨"d1"⟩] := by
    decide
  have hright : ((((reached step .start readBoth).lastAt shopPlace).toList.filter
      fun d => decide (¬ (reached step .start readBoth).Dead d)).map
        Deployment.id) = [⟨"d2"⟩] := by
    decide
  rw [LiveRight, hanswer, hright] at hlive
  exact absurd hlive (by decide)
end Environments
end StudioWeb
