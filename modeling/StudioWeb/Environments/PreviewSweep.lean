import StudioWeb.Environments.DeployRequests

/-!
# Previews, and the sweep that removes them

The namespaces of the clusters that an organization deploys into, the deploy runs that make
them and install into them (`make_namespace` of `environments/deploy.rs`), and the sweep of
`environments/preview.rs`: it reads the list of deployments once, and then looks at, deletes
and records one preview after another, with anything in between.

Which cluster a connection reaches, and whether an expiry has come, are parameters.  A
namespace also keeps, for no operation to read, the preview that moved into it last and the
deploys that are no previews and have not been uninstalled.
-/

namespace StudioWeb
namespace Environments

open Function
open Scheduler (Uuid)

structure ClusterNamespace where
  managedBy : Option String
  previewLabel : Option String
  projectLabel : Option String
  tenant : Option Uuid
  guests : List (Uuid × String)
deriving DecidableEq

def FIELD_MANAGER : String := "constructor-studio"

def isPreviewNamespace (ns : ClusterNamespace) (project : Uuid) : Bool :=
  ns.managedBy = some FIELD_MANAGER && ns.previewLabel = some "true" &&
    ns.projectLabel = some project.text

/-- The namespace that a run makes. -/
def newNamespace (d : Deployment) : ClusterNamespace where
  managedBy := some FIELD_MANAGER
  previewLabel := if d.preview.isSome then some "true" else none
  projectLabel := some d.projectId.text
  tenant := none
  guests := []

/-- `owner_refusal`, of a namespace that a run finds. -/
def ownerRefusal (ns : String) (label : Option String) (project : Uuid) : Option String :=
  match label with
  | none => none
  | some owner =>
    if owner = project.text then
      none
    else
      some (s!"namespace {ns} is labelled as project {owner}'s " ++
        "(studio.constructor.tech/project): Studio does not deploy one project into " ++
        "another's namespace")

def makeNamespace (d : Deployment) : Option ClusterNamespace → Except String ClusterNamespace
  | none => .ok (newNamespace d)
  | some found =>
    match ownerRefusal d.namespace found.projectLabel d.projectId with
    | some why => .error why
    | none => .ok found

/-- A run makes a namespace, or finds one whose labels it leaves. -/
theorem makeNamespace_spec
    {d : Deployment} {found : Option ClusterNamespace} {ns : ClusterNamespace}
    (h : makeNamespace d found = .ok ns) :
    found = none ∧ ns = newNamespace d ∨ found = some ns := by
  unfold makeNamespace at h
  split at h
  · cases h
    exact .inl ⟨rfl, rfl⟩
  · split at h
    · cases h
    · cases h
      exact .inr rfl

/-- A preview moves in where its run has made the namespace or found it. -/
def ClusterNamespace.taken (ns : ClusterNamespace) (d : Deployment) : ClusterNamespace :=
  if d.preview.isSome then { ns with tenant := some d.id } else ns

def ClusterNamespace.installed (ns : ClusterNamespace) (d : Deployment) : ClusterNamespace :=
  if d.preview.isSome then
    { ns with tenant := some d.id }
  else
    { ns with guests := (d.id, d.product) :: ns.guests }

def ClusterNamespace.uninstalled (ns : ClusterNamespace) (d : Deployment) : ClusterNamespace :=
  { ns with guests := ns.guests.filter fun g => g.2 ≠ d.product }

variable (ns : ClusterNamespace) (d : Deployment) (project : Uuid)

@[simp] theorem isPreviewNamespace_taken :
    isPreviewNamespace (ns.taken d) project = isPreviewNamespace ns project := by
  unfold ClusterNamespace.taken
  split <;> rfl

@[simp] theorem isPreviewNamespace_installed
 :
    isPreviewNamespace (ns.installed d) project = isPreviewNamespace ns project := by
  unfold ClusterNamespace.installed
  split <;> rfl

theorem isPreviewNamespace_new (d : Deployment) :
    isPreviewNamespace (newNamespace d) d.projectId = d.preview.isSome := by
  unfold isPreviewNamespace newNamespace
  cases d.preview <;> simp

theorem isPreviewNamespace_new_of_none {d : Deployment} (h : d.preview.isSome = false)
    (project : Uuid) : isPreviewNamespace (newNamespace d) project = false := by
  unfold isPreviewNamespace newNamespace
  simp [h]

def Deployment.previewDue (isPast : String → Int → Bool) (now : Int) (d : Deployment) : Bool :=
  d.isLivePreview && d.preview.any fun p => isPast p.expiresAt now

def toRemove (isPast : String → Int → Bool) (list : DeploymentList) (only : Option Uuid)
    (now : Int) : List Deployment :=
  list.items.filter fun d =>
    match only with
    | some id => d.id = id && d.isLivePreview
    | none => d.previewDue isPast now

/-- What `remove` says of a namespace that no preview of the project made. -/
def notAPreview (d : Deployment) : String :=
  s!"namespace {d.namespace} is not labelled as this project's preview: Studio leaves it alone"

/-- What the sweep writes into the list. -/
def recordRemoval (list : DeploymentList) (id : Uuid) (place : String)
    (error : Option String) : DeploymentList :=
  list.change id (markRemoval place error)

inductive SweepPc where
  | reading (only : Option Uuid)
  | removing (due : List Deployment)
  /-- It has found the namespace labelled as the preview's. -/
  | deleting (d : Deployment) (rest : List Deployment)
  | recording (d : Deployment) (rest : List Deployment) (error : Option String)

def SweepPc.held : SweepPc → List Deployment
  | .reading _ => []
  | .removing due => due
  | .deleting d rest => d :: rest
  | .recording _ rest _ => rest

structure PreviewWorld where
  list : DeploymentList
  /-- The deploy runs, each with the connection it goes through. -/
  runs : List (Deployment × Uuid)
  namespaces : Uuid × String → Option ClusterNamespace
  sweeps : Nat → Option SweepPc

inductive PreviewAction where
  | requests (reads : DeployReads) (env : Environment) (project : Uuid) (req : DeployRequest)
  /-- A deployment of the list gets a run. -/
  | queues (id : Uuid) (connection : Uuid)
  | prepares (run : Nat)
  | installs (run : Nat)
  | uninstalls (run : Nat)
  | sweeps (sweep : Nat)
  | asksRemoval (sweep : Nat) (project id : Uuid)
  | reads (sweep : Nat) (now : Int)
  | looks (sweep : Nat)
  | deletes (sweep : Nat)
  /-- The cluster cannot be reached, or does not delete the namespace. -/
  | fails (sweep : Nat) (why : String)
  | records (sweep : Nat) (now : String)
  | recordFails (sweep : Nat)

namespace PreviewWorld

/-- The clusters' namespaces before anything was deployed. -/
def started (namespaces : Uuid × String → Option ClusterNamespace) : PreviewWorld :=
  ⟨⟨[]⟩, [], namespaces, fun _ => none⟩

variable (clusterOf : Uuid → Uuid) (isPast : String → Int → Bool)

/-- Where the sweep looks for a preview. -/
def home (d : Deployment) : Uuid × String :=
  (clusterOf (d.preview.elim ⟨""⟩ Preview.connectionId), d.namespace)

def setNamespace (s : PreviewWorld) (place : Uuid × String) (ns : Option ClusterNamespace) :
    PreviewWorld :=
  { s with namespaces := Function.update s.namespaces place ns }

def setSweep (s : PreviewWorld) (sweep : Nat) (pc : SweepPc) : PreviewWorld :=
  { s with sweeps := Function.update s.sweeps sweep (some pc) }

variable (s : PreviewWorld)

@[simp] theorem namespaces_setNamespace_self
 (place : Uuid × String) (ns : Option ClusterNamespace) :
    (s.setNamespace place ns).namespaces place = ns :=
  update_self ..

theorem namespaces_setNamespace_of_ne {place other : Uuid × String}
    (ns : Option ClusterNamespace) (h : other ≠ place) :
    (s.setNamespace place ns).namespaces other = s.namespaces other :=
  update_of_ne h ..

@[simp] theorem sweeps_setSweep_self (sweep : Nat) (pc : SweepPc) :
    (s.setSweep sweep pc).sweeps sweep = some pc :=
  update_self ..

theorem sweeps_setSweep_of_ne {sweep other : Nat} (pc : SweepPc)
    (h : other ≠ sweep) : (s.setSweep sweep pc).sweeps other = s.sweeps other :=
  update_of_ne h ..

def sweepStep (s : PreviewWorld) (sweep : Nat) (pc : SweepPc) : PreviewAction → Option PreviewWorld
  | .reads _ now =>
    match pc with
    | .reading only => some (s.setSweep sweep (.removing (toRemove isPast s.list only now)))
    | _ => none
  | .looks _ =>
    match pc with
    | .removing (d :: rest) =>
      match s.namespaces (home clusterOf d) with
      | none => some (s.setSweep sweep (.recording d rest none))
      | some ns =>
        if isPreviewNamespace ns d.projectId then
          some (s.setSweep sweep (.deleting d rest))
        else
          some (s.setSweep sweep (.recording d rest (some (notAPreview d))))
    | _ => none
  | .deletes _ =>
    match pc with
    | .deleting d rest =>
      some ((s.setNamespace (home clusterOf d) none).setSweep sweep (.recording d rest none))
    | _ => none
  | .fails _ why =>
    match pc with
    | .removing (d :: rest) => some (s.setSweep sweep (.recording d rest (some why)))
    | .deleting d rest => some (s.setSweep sweep (.recording d rest (some why)))
    | _ => none
  | .records _ now =>
    match pc with
    | .recording d rest error =>
      some
        { s.setSweep sweep (.removing rest) with
          list := recordRemoval s.list d.id now error }
    | _ => none
  | .recordFails _ =>
    match pc with
    | .recording _ rest _ => some (s.setSweep sweep (.removing rest))
    | _ => none
  | _ => none

def runStep (s : PreviewWorld) (d : Deployment) (place : Uuid × String) : PreviewAction →
    Option PreviewWorld
  | .prepares _ =>
    if d.action = .install then
      (makeNamespace d (s.namespaces place)).toOption.map fun ns =>
        s.setNamespace place (some (ns.taken d))
    else
      none
  | .installs _ =>
    if d.action = .install then
      (s.namespaces place).map fun ns => s.setNamespace place (some (ns.installed d))
    else
      none
  | .uninstalls _ =>
    if d.action = .uninstall then
      (s.namespaces place).map fun ns => s.setNamespace place (some (ns.uninstalled d))
    else
      none
  | _ => none

def sweepAt (s : PreviewWorld) (sweep : Nat) (a : PreviewAction) : Option PreviewWorld :=
  (s.sweeps sweep).bind fun pc => sweepStep clusterOf isPast s sweep pc a

def runAt (s : PreviewWorld) (run : Nat) (a : PreviewAction) : Option PreviewWorld :=
  (s.runs[run]?).bind fun r => runStep s r.1 (clusterOf r.2, r.1.namespace) a

def step (s : PreviewWorld) (a : PreviewAction) : Option PreviewWorld :=
  match a with
  | .requests reads env project req =>
    match reads.requestDeploy env project req with
    | .ok d => some { s with list := s.list.record d }
    | .error _ => none
  | .queues id connection =>
    (s.list.get id).map fun d => { s with runs := s.runs ++ [(d, connection)] }
  | .prepares run => runAt clusterOf s run a
  | .installs run => runAt clusterOf s run a
  | .uninstalls run => runAt clusterOf s run a
  | .sweeps sweep =>
    if (s.sweeps sweep).isSome then none else some (s.setSweep sweep (.reading none))
  | .asksRemoval sweep project id =>
    match s.list.get id with
    | some d =>
      if (s.sweeps sweep).isSome || d.projectId ≠ project || !d.isLivePreview then
        none
      else
        some (s.setSweep sweep (.reading (some id)))
    | none => none
  | .reads sweep _ => sweepAt clusterOf isPast s sweep a
  | .looks sweep => sweepAt clusterOf isPast s sweep a
  | .deletes sweep => sweepAt clusterOf isPast s sweep a
  | .fails sweep _ => sweepAt clusterOf isPast s sweep a
  | .records sweep _ => sweepAt clusterOf isPast s sweep a
  | .recordFails sweep => sweepAt clusterOf isPast s sweep a

end PreviewWorld

end Environments
end StudioWeb
