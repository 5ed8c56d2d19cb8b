import Mathlib.Data.Int.Order.Basic
import Mathlib.Data.List.Dedup
import StudioWeb.Environments.DeployCalls
import StudioWeb.Environments.Images
import StudioWeb.Library.StableRank

/-!
# What a retention policy lets go

`sweep` of `environments/images.rs`, and the `SweepTask` of `image_tasks.rs` that asks it
for each project of an organization.
-/

namespace StudioWeb
namespace Environments

open List
open Scheduler (Uuid)
open StableRank (goesBefore)

structure Retention where
  keepLast : Option Nat
  keepDays : Option Nat
deriving DecidableEq

namespace Retention

def keepsEverything (policy : Retention) : Bool := policy.keepLast.isNone && policy.keepDays.isNone

/-- `within_last` of a record that so many go before. -/
def withinLast (policy : Retention) (i : Nat) : Bool := policy.keepLast.any fun n => i < n

def withinDays (policy : Retention) (now : Int) (r : ImageRecord) : Bool :=
  policy.keepDays.any fun d => now - r.pushedAtMs < (d : Int) * 24 * 60 * 60 * 1000

end Retention

inductive Sweep where
  | retain
  | delete
deriving DecidableEq

/-- The order of the keys of `by_repo`. -/
def pathLess (a b : String × String) : Bool := a.1 < b.1 || (a.1 = b.1 && a.2 < b.2)

/-- The keys of `by_repo`. -/
def paths (records : List ImageRecord) : List (String × String) :=
  sortBy pathLess ((records.filter ImageRecord.inRegistry).map ImageRecord.path).dedup

/-- An entry of `by_repo`. -/
def atPath (records : List ImageRecord) (path : String × String) : List ImageRecord :=
  records.filter fun r => r.inRegistry && r.path = path

/-- The list of a repository once sorted. -/
def newestFirst (list : List ImageRecord) : List ImageRecord :=
  sortBy (StableRank.greater ImageRecord.pushedAtMs) list

/-- What a record past the policy gets. -/
def verdict (running : ImageRecord → Bool) (r : ImageRecord) : Sweep :=
  if r.pinned || running r then .retain else .delete

/-- The loop of `sweep` over a repository. -/
def sweepPath (policy : Retention) (running : ImageRecord → Bool) (now : Int)
    (list : List ImageRecord) : List (Uuid × Sweep) :=
  (newestFirst list).zipIdx.filterMap fun (r, i) =>
    if policy.withinLast i || policy.withinDays now r then
      none
    else
      some (r.id, verdict running r)

def sweep (records : List ImageRecord) (policy : Retention) (running : ImageRecord → Bool)
    (now : Int) : List (Uuid × Sweep) :=
  if policy.keepsEverything then
    []
  else
    (paths records).flatMap fun path => sweepPath policy running now (atPath records path)

structure RecordedImages where
  records : List ImageRecord
  distinct : (records.map ImageRecord.id).Nodup

/-- Where a record stands in the list. -/
def position (records : List ImageRecord) (r : ImageRecord) : Nat :=
  records.findIdx fun x => x.id = r.id

/-- How many records of its repository are newer than a record, or as new and stand
before it. -/
def rank (records : List ImageRecord) (r : ImageRecord) : Nat :=
  records.countP fun x => x.inRegistry && x.path = r.path &&
    goesBefore ImageRecord.pushedAtMs (position records) x r

/-- The record is among the newest of its repository that the policy keeps, or new enough,
or there is nothing to be past. -/
def isWithin (records : List ImageRecord) (policy : Retention) (now : Int)
    (r : ImageRecord) : Bool :=
  policy.keepsEverything || policy.withinLast (rank records r) || policy.withinDays now r

def ImageRecord.pin (p : Uuid) (r : ImageRecord) : ImageRecord :=
  if r.id = p then { r with pinned := true } else r

section Pin

variable {p : Uuid} {r : ImageRecord}

@[simp] theorem ImageRecord.pin_id : (r.pin p).id = r.id := by
  unfold ImageRecord.pin
  split <;> rfl

@[simp] theorem ImageRecord.pin_path : (r.pin p).path = r.path := by
  unfold ImageRecord.pin
  split <;> rfl

@[simp] theorem ImageRecord.pin_inRegistry : (r.pin p).inRegistry = r.inRegistry := by
  unfold ImageRecord.pin
  split <;> rfl

@[simp] theorem ImageRecord.pin_pushedAtMs : (r.pin p).pushedAtMs = r.pushedAtMs := by
  unfold ImageRecord.pin
  split <;> rfl

theorem ImageRecord.pin_of_ne (h : r.id ≠ p) : r.pin p = r :=
  if_neg h

end Pin

namespace RecordedImages

/-- The records once one is pinned. -/
def pin (images : RecordedImages) (p : Uuid) : RecordedImages where
  records := images.records.map (ImageRecord.pin p)
  distinct := by
    have hids : ImageRecord.id ∘ ImageRecord.pin p = ImageRecord.id := by
      funext r
      exact ImageRecord.pin_id
    rw [map_map, hids]
    exact images.distinct

end RecordedImages

section Sweep

variable {images : RecordedImages} {policy : Retention} {now : Int}
variable {running : ImageRecord → Bool}

theorem eq_of_id_eq {r x : ImageRecord} (hr : r ∈ images.records) (hx : x ∈ images.records)
    (hid : r.id = x.id) : r = x :=
  inj_on_of_nodup_map images.distinct hr hx hid

theorem pairwise_position (images : RecordedImages) :
    images.records.Pairwise fun a b =>
      position images.records a < position images.records b := by
  have hindex : ∀ i (hi : i < images.records.length),
      position images.records images.records[i] = i := by
    intro i hi
    unfold position
    rw [findIdx_eq hi]
    refine ⟨decide_eq_true rfl, ?_⟩
    intro j hj
    rw [decide_eq_false_iff_not]
    intro hid
    have hnodup := pairwise_map.mp images.distinct
    exact pairwise_iff_getElem.mp hnodup j i (by omega) hi hj hid
  rw [pairwise_iff_getElem]
  intro i j hi hj hij
  rw [hindex i hi, hindex j hj]
  exact hij

theorem mem_paths_iff {records : List ImageRecord} {path : String × String} :
    path ∈ paths records ↔ ∃ r ∈ records, r.inRegistry = true ∧ r.path = path := by
  unfold paths
  rw [(perm_sortBy pathLess _).mem_iff, mem_dedup, mem_map]
  simp [and_assoc]

variable {r : ImageRecord}

theorem mem_atPath_iff {records : List ImageRecord} {path : String × String} :
    r ∈ atPath records path ↔ r ∈ records ∧ r.inRegistry = true ∧ r.path = path := by
  simp [atPath]

theorem mem_zipIdx_newestFirst {i : Nat} :
    (r, i) ∈ (newestFirst (atPath images.records r.path)).zipIdx ↔
      r ∈ images.records ∧ r.inRegistry = true ∧ i = rank images.records r := by
  have hstands : (atPath images.records r.path).Pairwise fun a b =>
      position images.records a < position images.records b :=
    (pairwise_position images).sublist filter_sublist
  have hrank : (atPath images.records r.path).countP
      (fun x => goesBefore ImageRecord.pushedAtMs (position images.records) x r) =
      rank images.records r := by
    unfold atPath rank
    rw [countP_filter]
    congr 1
    funext x
    exact Bool.and_comm _ _
  unfold newestFirst
  rw [StableRank.mem_zipIdx_sortBy hstands, mem_atPath_iff, hrank]
  simp [and_assoc]

/-- What `sweep` says of each record. -/
theorem mem_sweep_iff {id : Uuid} {what : Sweep} :
    (id, what) ∈ sweep images.records policy running now ↔
      ∃ r ∈ images.records, r.id = id ∧ r.inRegistry = true ∧
        isWithin images.records policy now r = false ∧ what = verdict running r := by
  unfold sweep
  split
  · next hall =>
    have hwithin : ∀ r, isWithin images.records policy now r = true := by
      intro r
      unfold isWithin
      rw [hall]
      rfl
    simp [hwithin]
  · next hall =>
    have hwithin : ∀ r, isWithin images.records policy now r =
        (policy.withinLast (rank images.records r) || policy.withinDays now r) := by
      intro r
      unfold isWithin
      rw [Bool.eq_false_iff.mpr hall, Bool.false_or]
    constructor
    · intro hmem
      obtain ⟨path, -, hmem⟩ := mem_flatMap.mp hmem
      obtain ⟨⟨r, i⟩, hri, hsome⟩ := mem_filterMap.mp hmem
      have hr : r ∈ atPath images.records path :=
        (perm_sortBy _ _).mem_iff.mp (fst_mem_of_mem_zipIdx hri)
      obtain ⟨-, -, rfl⟩ := mem_atPath_iff.mp hr
      obtain ⟨hmemR, hreg, rfl⟩ := mem_zipIdx_newestFirst.mp hri
      simp only at hsome
      split at hsome
      · cases hsome
      · next hpast =>
        obtain ⟨rfl, rfl⟩ := Prod.mk.inj (Option.some.inj hsome)
        refine ⟨r, hmemR, rfl, hreg, ?_, rfl⟩
        rw [hwithin]
        exact Bool.eq_false_iff.mpr hpast
    · rintro ⟨r, hmemR, rfl, hreg, hpast, rfl⟩
      refine mem_flatMap.mpr ⟨r.path, mem_paths_iff.mpr ⟨r, hmemR, hreg, rfl⟩, ?_⟩
      refine mem_filterMap.mpr
        ⟨(r, rank images.records r), mem_zipIdx_newestFirst.mpr ⟨hmemR, hreg, rfl⟩, ?_⟩
      rw [hwithin] at hpast
      simp only [hpast, Bool.false_eq_true, if_false]

@[simp] theorem rank_pin (images : RecordedImages) (p : Uuid) (r : ImageRecord) :
    rank (images.pin p).records (r.pin p) = rank images.records r := by
  have hposition : ∀ x : ImageRecord, position (images.pin p).records (x.pin p) =
      position images.records x := by
    intro x
    unfold position RecordedImages.pin
    rw [findIdx_map]
    congr 1
    funext y
    simp
  unfold rank
  have hrecords : (images.pin p).records = images.records.map (ImageRecord.pin p) := rfl
  rw [hrecords, countP_map, ← hrecords]
  congr 1
  funext x
  simp [goesBefore, StableRank.goesBefore, hposition]

theorem isWithin_pin (images : RecordedImages) (policy : Retention) (now : Int) (p : Uuid)
    (r : ImageRecord) :
    isWithin (images.pin p).records policy now (r.pin p) =
      isWithin images.records policy now r := by
  simp [isWithin, Retention.withinDays]

theorem mem_sweep_delete_iff (hr : r ∈ images.records) :
    (r.id, Sweep.delete) ∈ sweep images.records policy running now ↔
      r.inRegistry = true ∧ isWithin images.records policy now r = false ∧
        r.pinned = false ∧ running r = false := by
  have hverdict : Sweep.delete = verdict running r ↔ r.pinned = false ∧ running r = false := by
    unfold verdict
    cases r.pinned <;> cases running r <;> simp
  rw [mem_sweep_iff, ← hverdict]
  constructor
  · rintro ⟨x, hx, hid, hreg, hpast, hwhat⟩
    obtain rfl := eq_of_id_eq hx hr hid
    exact ⟨hreg, hpast, hwhat⟩
  · rintro ⟨hreg, hpast, hwhat⟩
    exact ⟨r, hr, rfl, hreg, hpast, hwhat⟩

theorem deletes_of_pin {p : Uuid} (hr : r ∈ images.records) (hne : r.id ≠ p)
    (h : (r.id, Sweep.delete) ∈ sweep (images.pin p).records policy running now) :
    (r.id, Sweep.delete) ∈ sweep images.records policy running now := by
  have hpin := ImageRecord.pin_of_ne hne
  have hr' : r ∈ (images.pin p).records := by
    rw [← hpin]
    exact mem_map_of_mem hr
  rw [mem_sweep_delete_iff hr'] at h
  rw [mem_sweep_delete_iff hr, ← isWithin_pin images policy now p r, hpin]
  exact h

theorem deletes_of_more {live live' : List Deployment} (hr : r ∈ images.records)
    (hmore : live ⊆ live')
    (h : (r.id, Sweep.delete) ∈ sweep images.records policy (Environments.running live') now) :
    (r.id, Sweep.delete) ∈ sweep images.records policy (Environments.running live) now := by
  rw [mem_sweep_delete_iff hr] at h ⊢
  obtain ⟨hreg, hpast, hpinned, hruns⟩ := h
  refine ⟨hreg, hpast, hpinned, ?_⟩
  by_contra hrun
  rw [Bool.not_eq_false] at hrun
  rw [running_mono hmore hrun] at hruns
  cases hruns

end Sweep

/-- What a sweep of a project's records should do: what it deletes is in the registry,
unpinned, past the policy and used by no release; what it says nothing about is within the
policy, or gone already; and neither a pin nor a release lets another record go. -/
structure SparesWhatRuns (images : RecordedImages) (policy : Retention)
    (live : List Deployment) (now : Int) : Prop where
  deletes : ∀ id, (id, Sweep.delete) ∈ sweep images.records policy (running live) now →
    ∃ r ∈ images.records, r.id = id ∧ r.inRegistry = true ∧ r.pinned = false ∧
      isWithin images.records policy now r = false ∧ ∀ d ∈ live, uses r d = false
  silent : ∀ r ∈ images.records,
    (∀ what, (r.id, what) ∉ sweep images.records policy (running live) now) →
      r.inRegistry = false ∨ isWithin images.records policy now r = true
  pins : ∀ p, ∀ r ∈ images.records, r.id ≠ p →
    (r.id, Sweep.delete) ∈ sweep (images.pin p).records policy (running live) now →
      (r.id, Sweep.delete) ∈ sweep images.records policy (running live) now
  releases : ∀ live', live ⊆ live' → ∀ r ∈ images.records,
    (r.id, Sweep.delete) ∈ sweep images.records policy (running live') now →
      (r.id, Sweep.delete) ∈ sweep images.records policy (running live) now

/-- **Retention keeps what runs** where every record past the policy that a release names
by its tag is pinned or named by its digest as well. -/
theorem sweep_keeps_what_runs (images : RecordedImages) (policy : Retention)
    (history : List Deployment) (now : Int) :
    SparesWhatRuns images policy (liveDeployments history) now ↔
      ∀ r ∈ images.records, r.inRegistry = true → r.pinned = false →
        isWithin images.records policy now r = false →
        (∃ d ∈ liveDeployments history, usesByTag r d = true) →
          ∃ d ∈ liveDeployments history, runs r d = true := by
  constructor
  · intro hkeeps r hr hreg hpinned hpast htag
    obtain ⟨d, hd, htag⟩ := htag
    by_contra hnone
    have hruns : running (liveDeployments history) r = false := by
      rw [running, any_eq_false]
      intro d hd hruns
      exact hnone ⟨d, hd, hruns⟩
    obtain ⟨x, hx, hid, -, -, -, hunused⟩ := hkeeps.deletes r.id
      ((mem_sweep_delete_iff hr).mpr ⟨hreg, hpast, hpinned, hruns⟩)
    obtain rfl := eq_of_id_eq hx hr hid
    have hused := hunused d hd
    rw [uses_eq, htag, Bool.or_true] at hused
    cases hused
  · intro htags
    refine ⟨?_, ?_, fun p r hr hne h => deletes_of_pin hr hne h,
      fun live' hmore r hr h => deletes_of_more hr hmore h⟩
    · intro id hdelete
      obtain ⟨r, hr, rfl, -⟩ := mem_sweep_iff.mp hdelete
      obtain ⟨hreg, hpast, hpinned, hruns⟩ := (mem_sweep_delete_iff hr).mp hdelete
      have hidle := any_eq_false.mp hruns
      refine ⟨r, hr, rfl, hreg, hpinned, hpast, ?_⟩
      intro d hd
      rw [uses_eq, Bool.or_eq_false_iff]
      refine ⟨Bool.eq_false_iff.mpr (hidle d hd), ?_⟩
      by_contra htag
      rw [Bool.not_eq_false] at htag
      obtain ⟨d', hd', hruns'⟩ := htags r hr hreg hpinned hpast ⟨d, hd, htag⟩
      exact hidle d' hd' hruns'
    · intro r hr hsilent
      by_contra hpast
      rw [not_or, Bool.not_eq_false, Bool.not_eq_true] at hpast
      exact hsilent _ (mem_sweep_iff.mpr ⟨r, hr, rfl, hpast.1, hpast.2, rfl⟩)

private def apiImage : ImageRecord where
  id := ⟨"api"⟩
  organizationId := ⟨"acme"⟩
  projectId := ⟨"shop"⟩
  registryConnectionId := none
  registryHost := "ghcr.io"
  repository := "acme/shop/api"
  tags := ["1"]
  digest := "sha256:0123456789abcdef0123456789abcdef0123456789abcdef0123456789abcdef"
  buildId := none
  pushedAtMs := 0
  kind := .image
  state := .present
  pinned := false

private def apiImages : RecordedImages where
  records := [apiImage]
  distinct := nodup_singleton _

/-- An install that names its image as a request may. -/
private def taggedInstall : Deployment :=
  { shopInstall "d1" with
    images := [⟨"api", "ghcr.io/acme/shop/api:1"⟩]
    state := .succeeded }

/-- An image that a running release names by its tag is deleted. -/
theorem deleted_while_it_runs :
    ¬ ∀ images policy history now,
      SparesWhatRuns images policy (liveDeployments history) now := by
  intro hclaim
  have hkeeps := hclaim apiImages ⟨none, some 1⟩ [taggedInstall] (2 * 24 * 60 * 60 * 1000)
  obtain ⟨r, hr, -, -, -, -, hunused⟩ := hkeeps.deletes ⟨"api"⟩ (by decide)
  obtain rfl := mem_singleton.mp hr
  exact absurd (hunused taggedInstall (by decide)) (by decide)

end Environments
end StudioWeb
