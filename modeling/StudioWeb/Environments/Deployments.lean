import StudioWeb.Library.CappedHistory
import StudioWeb.Library.RustPrelude
import StudioWeb.Scheduler.TaskQueue

/-!
# Deployments, and the history an organization keeps of them

The records of `environments/model.rs` and the rules about them that need no I/O, and
`live_deployments` of `environments/images.rs`.
-/

namespace StudioWeb
namespace Environments

open List
open Scheduler (Uuid RunState)

def HISTORY : Nat := 200

inductive DeploymentState where
  | awaitingApproval
  | declined
  | queued
  | running
  | succeeded
  | failed
  | cancelled
deriving DecidableEq

def DeploymentState.asStr : DeploymentState → String
  | .awaitingApproval => "awaiting_approval"
  | .declined => "declined"
  | .queued => "queued"
  | .running => "running"
  | .succeeded => "succeeded"
  | .failed => "failed"
  | .cancelled => "cancelled"

inductive DeploymentAction where
  | install
  | uninstall
deriving DecidableEq

structure DeployImage where
  app : String
  image : String
deriving DecidableEq

structure ChartRef where
  reference : String
  version : String
  digest : Option String
deriving DecidableEq

structure Preview where
  name : String
  expiresAt : String
  host : Option String
  connectionId : Uuid
  connectionsFrom : Option Uuid
  removedAt : Option String
  removalError : Option String
deriving DecidableEq

structure Deployment where
  id : Uuid
  projectId : Uuid
  projectName : String
  environmentId : Uuid
  environmentName : String
  profile : String
  product : String
  action : DeploymentAction
  redeployOf : Option Uuid
  commit : Option String
  lockHash : Option String
  build : Option String
  images : List DeployImage
  «namespace» : String
  chartSha256 : String
  chartRef : Option ChartRef
  state : DeploymentState
  runId : Option Uuid
  requestedBy : String
  requestedByName : String
  requestedAt : String
  decidedBy : Option String
  decidedByName : Option String
  decidedAt : Option String
  reason : Option String
  outcome : Option String
  pendingChart : Option String
  preview : Option Preview
  warnings : List String
deriving DecidableEq

namespace Deployment

def sameRelease (d other : Deployment) : Bool :=
  match d.build, other.build with
  | some a, some b => a = b
  | _, _ =>
    d.product = other.product && d.chartRef = other.chartRef &&
      d.chartSha256 = other.chartSha256 && d.images = other.images

def isLivePreview (d : Deployment) : Bool := d.preview.any fun p => p.removedAt.isNone

def isRemoved (d : Deployment) : Bool := d.preview.any fun p => p.removedAt.isSome

def ownPlace (d : Deployment) : Option (Uuid × Uuid) :=
  if d.preview.isNone then some (d.projectId, d.environmentId) else none

/-- Where a deployment runs: its project, its environment and its namespace. -/
def place (d : Deployment) : Uuid × Uuid × String := (d.projectId, d.environmentId, d.namespace)

/-- The history keeps it, however long it is. -/
def isKept (d : Deployment) : Bool := d.state = .awaitingApproval || d.isLivePreview

/-- A success that leaves nothing running. -/
def isDead (d : Deployment) : Bool := d.action = .uninstall || d.isRemoved

end Deployment

structure DeploymentList where
  items : List Deployment
deriving DecidableEq

namespace DeploymentList

def waitingLike (list : DeploymentList) (d : Deployment) : Option Uuid :=
  (list.items.find? fun x =>
    x.id ≠ d.id && x.state = .awaitingApproval && x.projectId = d.projectId &&
      x.environmentId = d.environmentId && x.action = d.action &&
      x.preview.isSome = d.preview.isSome && x.sameRelease d).map Deployment.id

/-- The trimming of `DeploymentList::record`. -/
def trimmed (items : List Deployment) : List Deployment :=
  CappedHistory.retainCapped HISTORY Deployment.isKept Deployment.ownPlace [] 0 items

def putFirst (list : DeploymentList) (d : Deployment) : List Deployment :=
  d :: list.items.filter fun x => x.id ≠ d.id

def record (list : DeploymentList) (d : Deployment) : DeploymentList where
  items := trimmed (list.putFirst d)

/-- The record with an id. -/
def get (list : DeploymentList) (id : Uuid) : Option Deployment :=
  list.items.find? fun x => x.id = id

end DeploymentList

def spared (front : List Deployment) (d : Deployment) : Bool :=
  CappedHistory.spared HISTORY Deployment.isKept Deployment.ownPlace front d

/-- The loop of `live_deployments`, with the places seen. -/
def liveFrom : List (Uuid × Uuid × String) → List Deployment → List Deployment
  | _, [] => []
  | seen, d :: rest =>
    if d.state = .succeeded then
      if d.place ∈ seen then
        liveFrom seen rest
      else if d.action = .install && !d.isRemoved then
        d :: liveFrom (d.place :: seen) rest
      else
        liveFrom (d.place :: seen) rest
    else
      liveFrom seen rest

def liveDeployments (list : List Deployment) : List Deployment := liveFrom [] list

/-- What runs at a place. -/
def liveAt (list : List Deployment) (place : Uuid × Uuid × String) : List Deployment :=
  (liveDeployments list).filter fun d => d.place = place

def Deployment.isSuccessAt (d : Deployment) (place : Uuid × Uuid × String) : Bool :=
  d.state = .succeeded && d.place = place

def successesAt (list : List Deployment) (place : Uuid × Uuid × String) : List Deployment :=
  list.filter fun d => d.isSuccessAt place

section Live

variable {list : List Deployment} {place : Uuid × Uuid × String}

theorem isDead_eq_false_iff (d : Deployment) :
    d.isDead = false ↔ (decide (d.action = .install) && !d.isRemoved) = true := by
  unfold Deployment.isDead
  cases d.action <;> cases d.isRemoved <;> simp

variable {d : Deployment}

theorem isSuccessAt_iff :
    d.isSuccessAt place = true ↔ d.state = .succeeded ∧ d.place = place := by
  simp [Deployment.isSuccessAt]

theorem successesAt_cons_of_pos (h : d.isSuccessAt place = true)
    (rest : List Deployment) : successesAt (d :: rest) place = d :: successesAt rest place :=
  filter_cons_of_pos h

theorem successesAt_cons_of_neg (h : ¬ d.isSuccessAt place = true)
    (rest : List Deployment) : successesAt (d :: rest) place = successesAt rest place :=
  filter_cons_of_neg h

theorem liveFrom_filter_of_mem {seen : List (Uuid × Uuid × String)} (hmem : place ∈ seen)
    (list : List Deployment) : (liveFrom seen list).filter (fun d => d.place = place) = [] := by
  induction list generalizing seen with
  | nil => rfl
  | cons d _ ih =>
    unfold liveFrom
    split
    · split
      · exact ih hmem
      · next hnew =>
        have hother : ¬ d.place = place := by
          intro heq
          exact hnew (heq ▸ hmem)
        split
        · rw [filter_cons_of_neg (by simpa using hother)]
          exact ih (mem_cons_of_mem _ hmem)
        · exact ih (mem_cons_of_mem _ hmem)
    · exact ih hmem

theorem liveFrom_filter {seen : List (Uuid × Uuid × String)} (hnew : place ∉ seen)
    (list : List Deployment) :
    (liveFrom seen list).filter (fun d => d.place = place) =
      (successesAt list place).head?.toList.filter fun d => !d.isDead := by
  induction list generalizing seen with
  | nil => rfl
  | cons d rest ih =>
    unfold liveFrom
    by_cases hstate : d.state = .succeeded
    · rw [if_pos hstate]
      by_cases hplace : d.place = place
      · have hseen : d.place ∉ seen := by
          rw [hplace]
          exact hnew
        rw [if_neg hseen, successesAt_cons_of_pos (isSuccessAt_iff.mpr ⟨hstate, hplace⟩),
          head?_cons]
        have hnone : (liveFrom (d.place :: seen) rest).filter (fun d => d.place = place) = [] :=
          liveFrom_filter_of_mem (hplace ▸ mem_cons_self) rest
        cases hdead : d.isDead with
        | false =>
          rw [if_pos ((isDead_eq_false_iff d).mp hdead),
            filter_cons_of_pos (by simpa using hplace), hnone]
          simp [hdead]
        | true =>
          have hcond : ¬ (decide (d.action = .install) && !d.isRemoved) = true := by
            rw [← isDead_eq_false_iff, hdead]
            decide
          rw [if_neg hcond, hnone]
          simp [hdead]
      · have hskip : ¬ d.isSuccessAt place = true := by
          rw [isSuccessAt_iff]
          exact fun h => hplace h.2
        have hlater : place ∉ d.place :: seen := by
          rw [mem_cons, not_or]
          exact ⟨fun heq => hplace heq.symm, hnew⟩
        rw [successesAt_cons_of_neg hskip]
        split
        · exact ih hnew
        · split
          · rw [filter_cons_of_neg (by simpa using hplace)]
            exact ih hlater
          · exact ih hlater
    · have hskip : ¬ d.isSuccessAt place = true := by
        rw [isSuccessAt_iff]
        exact fun h => hstate h.1
      rw [if_neg hstate, successesAt_cons_of_neg hskip]
      exact ih hnew

/-- What runs at a place is its first success, unless that is dead. -/
theorem liveAt_eq (list : List Deployment) (place : Uuid × Uuid × String) :
    liveAt list place = (successesAt list place).head?.toList.filter fun d => !d.isDead :=
  liveFrom_filter (not_mem_nil) list

end Live

section Record

variable {list : DeploymentList} {d x : Deployment}

theorem trimmed_eq (items : List Deployment) :
    DeploymentList.trimmed items =
      CappedHistory.keepSpared HISTORY Deployment.isKept Deployment.ownPlace [] items := by
  unfold DeploymentList.trimmed
  apply CappedHistory.retainCapped_eq
  · intro k
    rfl
  · intro _
    rfl
  · intro h
    exact h

theorem trimmed_sublist (items : List Deployment) :
    (DeploymentList.trimmed items).Sublist items := by
  rw [trimmed_eq]
  exact CappedHistory.keepSpared_sublist _ _

theorem mem_trimmed_iff {items : List Deployment} :
    x ∈ DeploymentList.trimmed items ↔
      ∃ before behind, items = before ++ x :: behind ∧ spared before x = true := by
  rw [trimmed_eq, CappedHistory.mem_keepSpared_iff]
  rfl

theorem mem_putFirst (h : x ∈ list.putFirst d) : x = d ∨ (x ∈ list.items ∧ x.id ≠ d.id) := by
  rcases mem_cons.mp h with rfl | h
  · exact .inl rfl
  · obtain ⟨hmem, hid⟩ := mem_filter.mp h
    exact .inr ⟨hmem, by simpa using hid⟩

theorem mem_record (h : x ∈ (list.record d).items) : x = d ∨ (x ∈ list.items ∧ x.id ≠ d.id) :=
  mem_putFirst ((trimmed_sublist _).subset h)

theorem mem_record_self (list : DeploymentList) (d : Deployment) : d ∈ (list.record d).items := by
  refine mem_trimmed_iff.mpr ⟨[], _, rfl, ?_⟩
  simp [spared, CappedHistory.spared, HISTORY]

section

variable (h : (list.items.map Deployment.id).Nodup)
include h

theorem nodup_putFirst :
    ((list.putFirst d).map Deployment.id).Nodup := by
  unfold DeploymentList.putFirst
  rw [map_cons, nodup_cons]
  refine ⟨?_, h.sublist (filter_sublist.map _)⟩
  intro hmem
  obtain ⟨y, hy, hid⟩ := mem_map.mp hmem
  have := (mem_filter.mp hy).2
  simp [hid] at this

theorem nodup_record :
    ((list.record d).items.map Deployment.id).Nodup :=
  (nodup_putFirst h).sublist ((trimmed_sublist _).map _)

theorem get_eq_some_iff {id : Uuid} :
    list.get id = some x ↔ x ∈ list.items ∧ x.id = id := by
  unfold DeploymentList.get
  constructor
  · intro hfind
    exact ⟨mem_of_find?_eq_some hfind, by simpa using find?_some hfind⟩
  · rintro ⟨hmem, hid⟩
    have hsome : (list.items.find? fun y => y.id = id).isSome := by
      rw [find?_isSome]
      exact ⟨x, hmem, by simpa using hid⟩
    obtain ⟨y, hy⟩ := Option.isSome_iff_exists.mp hsome
    have hyid : y.id = id := by simpa using find?_some hy
    rw [hy]
    exact congrArg some (inj_on_of_nodup_map h (mem_of_find?_eq_some hy) hmem (hyid.trans hid.symm))

end

end Record
end Environments
end StudioWeb
