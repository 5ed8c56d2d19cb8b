import StudioWeb.Environments.DeployRequests
import StudioWeb.Library.LabelledRuns
import StudioWeb.Library.UniqueRows

/-!
# Which project holds a namespace

`Records::assign` of `environments/records.rs` over the assignments of one organization, and
its two callers: an administrator's `assign_namespace` and the `record` of a run.  A row has
the primary key (project, environment) and the unique index (cluster, namespace); nothing is
said there of the build namespace.  Rows of other organizations show only as an insert that
fails.
-/

namespace StudioWeb
namespace Environments

open Scheduler (Uuid trimmedNonempty)
open LabelledRuns

/-- `Assignment`, with who assigned it and when. -/
structure AssignmentRecord extends Assignment where
  assignedBy : String
  assignedAtMs : Int
deriving DecidableEq

namespace AssignmentRecord

def key (a : AssignmentRecord) : Uuid × Uuid := (a.projectId, a.environmentId)

/-- `studio_env_namespaces_one_owner`. -/
def oneOwner (a : AssignmentRecord) : Uuid × String := (a.clusterConnectionId, a.namespace)

/-- The namespace of the cluster is recorded for the project, to run or to build in. -/
def Holds (a : AssignmentRecord) (cluster : Uuid) (ns : String) : Prop :=
  a.clusterConnectionId = cluster ∧ (a.namespace = ns ∨ a.buildNamespace = ns)

end AssignmentRecord

/-- The table `studio_env_namespaces`. -/
abbrev NamespaceTable :=
  UniqueRows AssignmentRecord.key AssignmentRecord.oneOwner

inductive Assigned where
  | kept (a : AssignmentRecord)
  | taken
deriving DecidableEq

/-- What the database says of itself in one call: its first read, its insert and its second
read may each fail. -/
structure AssignFailures where
  firstRead : Option String
  insert : Option String
  secondRead : Option String
deriving DecidableEq

namespace NamespaceTable

def assignment (table : NamespaceTable) (project environment : Uuid) : Option AssignmentRecord :=
  table.get? (project, environment)

/-- The second read, after an insert that failed. -/
def reread (table : NamespaceTable) (a : AssignmentRecord) (failure : Option String) :
    Except String Assigned :=
  match failure with
  | some why => .error why
  | none =>
    match table.assignment a.projectId a.environmentId with
    | some had => if had.namespace = a.namespace then .ok (.kept had) else .ok .taken
    | none => .ok .taken

/-- The insert, and what its answer is taken for. -/
def write (table : NamespaceTable) (a : AssignmentRecord) (failures : AssignFailures) :
    NamespaceTable × Except String Assigned :=
  match failures.insert, table.upsert? a with
  | none, some made => (made, .ok (.kept a))
  | _, _ => (table, table.reread a failures.secondRead)

def assign (table : NamespaceTable) (a : AssignmentRecord) (replace : Bool)
    (failures : AssignFailures) : NamespaceTable × Except String Assigned :=
  if replace then
    table.write a failures
  else
    match failures.firstRead with
    | some why => (table, .error why)
    | none =>
      match table.assignment a.projectId a.environmentId with
      | some had => (table, .ok (.kept had))
      | none => table.write a failures

/-- No namespace of a cluster is recorded for two projects. -/
def Exclusive (table : NamespaceTable) : Prop :=
  ∀ r ∈ table.rows, ∀ q ∈ table.rows, r.projectId ≠ q.projectId →
    ∀ cluster ns, r.Holds cluster ns → ¬ q.Holds cluster ns

end NamespaceTable

/-- A call of `assign`. -/
structure AssignCall where
  a : AssignmentRecord
  replace : Bool
  failures : AssignFailures

namespace AssignCall

def step (table : NamespaceTable) (c : AssignCall) : Option NamespaceTable :=
  some (table.assign c.a c.replace c.failures).1

/-- The call gets to its insert, and the unique index lets it through. -/
def Writes (table : NamespaceTable) (c : AssignCall) : Prop :=
  (c.replace = true ∨ c.failures.firstRead = none ∧
      table.assignment c.a.projectId c.a.environmentId = none) ∧
    c.failures.insert = none ∧
    ∀ r ∈ table.rows, r.key ≠ c.a.key → r.oneOwner ≠ c.a.oneOwner

/-- Another project builds in neither of the call's namespaces on that cluster, and runs in
no namespace that the call builds in. -/
def TakesNoOthers (table : NamespaceTable) (c : AssignCall) : Prop :=
  ∀ r ∈ table.rows, r.projectId ≠ c.a.projectId → r.clusterConnectionId = c.a.clusterConnectionId →
    r.buildNamespace ≠ c.a.namespace ∧ r.buildNamespace ≠ c.a.buildNamespace ∧
      r.namespace ≠ c.a.buildNamespace

/-- A call that writes takes no other project's namespaces. -/
def Apart (table : NamespaceTable) (c : AssignCall) : Prop := c.Writes table → c.TakesNoOthers table

/-- What is answered `Kept` is what is stored for that project there. -/
def KeptIsStored (table : NamespaceTable) (c : AssignCall) : Prop :=
  ∀ a, (table.assign c.a c.replace c.failures).2 = .ok (.kept a) →
    (table.assign c.a c.replace c.failures).1.assignment c.a.projectId c.a.environmentId = some a

end AssignCall

/-- What `assign_namespace` refuses. -/
inductive AssignRefusal where
  | forbidden (code : String)
  | invalid (why : String)
deriving DecidableEq

def checkGiven (env : Environment) (ns : String) : Except AssignRefusal Unit :=
  if isDnsLabel ns.toList then
    match env.namespaces with
    | none => .ok ()
    | some given =>
      if ns ∈ given then
        .ok ()
      else
        let names := ", ".intercalate given
        .error (.invalid
          (s!"'{ns}' is not one of the namespaces environment '{env.name}' says the " ++
            s!"cluster gives ({names})"))
  else
    .error (.invalid s!"'{ns}' is not a Kubernetes namespace")

/-- The `assign` call of `assign_namespace`. -/
def assignNamespace (env : Environment) (project : Uuid) (ns : String) (buildNs : Option String)
    (person : String) (nowMs : Int) (failures : AssignFailures) :
    Except AssignRefusal AssignCall := do
  if env.admits project = false then
    .error (.forbidden "ENVIRONMENT_NOT_FOR_THIS_PROJECT")
  else
    let ns := trimmed ns
    let buildNs := (trimmedNonempty buildNs).getD ns
    checkGiven env ns
    checkGiven env buildNs
    .ok
      { a :=
          { projectId := project
            environmentId := env.id
            clusterConnectionId := env.connectionId
            «namespace» := ns
            buildNamespace := buildNs
            assignedBy := person
            assignedAtMs := nowMs }
        replace := true
        failures := failures }

/-- The `assign` call of `placement::record`. -/
def recordPlace (project environment cluster : Uuid) (ns buildNs : String) (nowMs : Int)
    (failures : AssignFailures) : AssignCall where
  a :=
    { projectId := project
      environmentId := environment
      clusterConnectionId := cluster
      «namespace» := ns
      buildNamespace := buildNs
      assignedBy := "studio"
      assignedAtMs := nowMs }
  replace := false
  failures := failures

section Calls

variable {table made : NamespaceTable} {c : AssignCall} {a : AssignmentRecord}

open NamespaceTable

theorem upsert_of_writes (h : c.Writes table) : ∃ made, table.upsert? c.a = some made := by
  cases hmade : table.upsert? c.a with
  | some made => exact ⟨made, rfl⟩
  | none =>
    obtain ⟨r, hr, hkey, howner⟩ := UniqueRows.upsert_eq_none_iff.mp hmade
    exact absurd howner (h.2.2 r hr hkey)

theorem assign_of_writes (h : c.Writes table) (hmade : table.upsert? c.a = some made) :
    table.assign c.a c.replace c.failures = (made, .ok (.kept c.a)) := by
  obtain ⟨hgoes, hinsert, _⟩ := h
  have hwrite : table.write c.a c.failures = (made, .ok (.kept c.a)) := by
    unfold write
    rw [hinsert, hmade]
  unfold assign
  rcases hgoes with hreplace | ⟨hread, hnone⟩
  · rw [if_pos hreplace, hwrite]
  · split
    · exact hwrite
    · rw [hread, hnone]
      exact hwrite

theorem assign_of_not_writes (h : ¬ c.Writes table) :
    (table.assign c.a c.replace c.failures).1 = table ∧
      ∀ b, (table.assign c.a c.replace c.failures).2 = .ok (.kept b) →
        table.assignment c.a.projectId c.a.environmentId = some b := by
  have hwrite : (c.replace = true ∨ c.failures.firstRead = none ∧
        table.assignment c.a.projectId c.a.environmentId = none) →
      table.write c.a c.failures = (table, table.reread c.a c.failures.secondRead) := by
    intro hgoes
    unfold write
    split
    · next _ hinsert hmade =>
      refine absurd ⟨hgoes, hinsert, fun r hr hkey howner => ?_⟩ h
      have hnone : table.upsert? c.a = none :=
        UniqueRows.upsert_eq_none_iff.mpr ⟨r, hr, hkey, howner⟩
      rw [hmade] at hnone
      cases hnone
    · rfl
  have hreread : ∀ b, table.reread c.a c.failures.secondRead = .ok (.kept b) →
      table.assignment c.a.projectId c.a.environmentId = some b := by
    intro b hb
    unfold reread at hb
    split at hb
    · cases hb
    · split at hb
      · next _ hhad =>
        split at hb
        · cases hb
          exact hhad
        · cases hb
      · cases hb
  unfold assign
  split
  · next hreplace =>
    rw [hwrite (.inl hreplace)]
    exact ⟨rfl, hreread⟩
  · split
    · exact ⟨rfl, fun b hb => by cases hb⟩
    · next hread =>
      split
      · next _ hhad =>
        refine ⟨rfl, fun b hb => ?_⟩
        cases hb
        exact hhad
      · next hnone =>
        rw [hwrite (.inr ⟨hread, hnone⟩)]
        exact ⟨rfl, hreread⟩

/-- **What is answered `Kept` is stored**, whatever the call and whatever fails. -/
theorem keptIsStored (table : NamespaceTable) (c : AssignCall) : c.KeptIsStored table := by
  intro b hb
  by_cases h : c.Writes table
  · obtain ⟨made, hmade⟩ := upsert_of_writes h
    rw [assign_of_writes h hmade] at hb ⊢
    cases hb
    exact UniqueRows.get?_upsert hmade
  · obtain ⟨htable, hkept⟩ := assign_of_not_writes h
    rw [htable]
    exact hkept b hb

theorem key_ne_of_project {r : AssignmentRecord} (h : r.projectId ≠ a.projectId) : r.key ≠ a.key :=
  fun hkey => h (congrArg Prod.fst hkey)

theorem exclusive_upsert_iff (htable : table.Exclusive) (hmade : table.upsert? c.a = some made) :
    made.Exclusive ↔ c.TakesNoOthers table := by
  have hmem (r : AssignmentRecord) := UniqueRows.mem_upsert_iff (r := r) hmade
  constructor
  · intro h r hr hproject hcluster
    have hr' : r ∈ made.rows := (hmem r).mpr (.inr ⟨hr, key_ne_of_project hproject⟩)
    have ha : c.a ∈ made.rows := (hmem c.a).mpr (.inl rfl)
    have happart := h r hr' c.a ha hproject c.a.clusterConnectionId
    refine ⟨fun hns => ?_, fun hns => ?_, fun hns => ?_⟩
    · exact happart c.a.namespace ⟨hcluster, .inr hns⟩ ⟨rfl, .inl rfl⟩
    · exact happart c.a.buildNamespace ⟨hcluster, .inr hns⟩ ⟨rfl, .inr rfl⟩
    · exact happart c.a.buildNamespace ⟨hcluster, .inl hns⟩ ⟨rfl, .inr rfl⟩
  · intro h
    have howner : ∀ r ∈ table.rows, r.projectId ≠ c.a.projectId → r.oneOwner ≠ c.a.oneOwner := by
      intro r hr hproject howner
      have hnone : table.upsert? c.a = none :=
        UniqueRows.upsert_eq_none_iff.mpr ⟨r, hr, key_ne_of_project hproject, howner⟩
      rw [hmade] at hnone
      cases hnone
    have hnew : ∀ r ∈ table.rows, r.projectId ≠ c.a.projectId →
        ∀ cluster ns, c.a.Holds cluster ns → ¬ r.Holds cluster ns := by
      rintro r hr hproject cluster ns ⟨hcluster, hns⟩ ⟨hcluster', hns'⟩
      have hsame : r.clusterConnectionId = c.a.clusterConnectionId := hcluster'.trans hcluster.symm
      obtain ⟨hrun, hbuild, hbuilt⟩ := h r hr hproject hsame
      rcases hns with rfl | rfl <;> rcases hns' with hns' | hns'
      · exact howner r hr hproject (Prod.ext hsame hns')
      · exact hrun hns'
      · exact hbuilt hns'
      · exact hbuild hns'
    intro r hr q hq hproject cluster ns hrns hqns
    rcases (hmem r).mp hr with rfl | ⟨hr, _⟩ <;> rcases (hmem q).mp hq with rfl | ⟨hq, _⟩
    · exact hproject rfl
    · exact hnew q hq (Ne.symm hproject) cluster ns hrns hqns
    · exact hnew r hr hproject cluster ns hqns hrns
    · exact htable r hr q hq hproject cluster ns hrns hqns

/-- **One call** leaves no namespace to two projects exactly when it writes none that
another project has. -/
theorem exclusive_assign_iff (htable : table.Exclusive) :
    (table.assign c.a c.replace c.failures).1.Exclusive ↔ c.Apart table := by
  unfold AssignCall.Apart
  by_cases h : c.Writes table
  · obtain ⟨made, hmade⟩ := upsert_of_writes h
    rw [assign_of_writes h hmade, exclusive_upsert_iff htable hmade]
    exact ⟨fun ht _ => ht, fun ht => ht h⟩
  · rw [(assign_of_not_writes h).1]
    exact ⟨fun _ hw => absurd hw h, fun _ => htable⟩

theorem exclusive_run_iff :
    ∀ (calls : List AssignCall) (table : NamespaceTable), table.Exclusive →
      (EveryStep AssignCall.step (fun s c t => t.Exclusive ∧ c.KeptIsStored s) table calls ↔
      EveryStep AssignCall.step (fun s c _ => c.Apart s) table calls)
  | [], _, _ => Iff.rfl
  | c :: calls, table, htable => by
    rw [everyStep_cons_iff rfl, everyStep_cons_iff rfl]
    have hone := exclusive_assign_iff (c := c) htable
    constructor
    · rintro ⟨⟨hexclusive, _⟩, hrest⟩
      exact ⟨hone.mp hexclusive, (exclusive_run_iff calls _ hexclusive).mp hrest⟩
    · rintro ⟨hapart, hrest⟩
      have hexclusive := hone.mpr hapart
      exact ⟨⟨hexclusive, keptIsStored table c⟩, (exclusive_run_iff calls _ hexclusive).mpr hrest⟩

/-- **No two projects hold one namespace**, in every state of a sequence of calls, and what
is answered `Kept` is stored, exactly when no call writes a build namespace that another
project holds on the cluster, or a namespace that another project builds in. -/
theorem namespaces_exclusive_iff (calls : List AssignCall) :
    EveryStep AssignCall.step (fun s c t => t.Exclusive ∧ c.KeptIsStored s) UniqueRows.empty calls ↔
      EveryStep AssignCall.step (fun s c _ => c.Apart s) UniqueRows.empty calls :=
  exclusive_run_iff calls UniqueRows.empty fun _ h => absurd h List.not_mem_nil

private def sharedCluster : Environment where
  id := ⟨"dev"⟩
  name := "dev"
  kind := .kubernetes
  connectionId := ⟨"cluster"⟩
  research := none
  registry := ""
  registryConnectionId := none
  namespacePattern := DEFAULT_NAMESPACE_PATTERN
  isProtected := false
  promoteFrom := none
  projects := none
  projectId := none
  previews := none
  buildNamespace := none
  namespaces := none
  named := by decide
  holdsProject := by decide
  givesNamespace := by decide

private def assignedTo (project ns buildNs : String) : AssignCall where
  a :=
    { projectId := ⟨project⟩
      environmentId := ⟨"dev"⟩
      clusterConnectionId := ⟨"cluster"⟩
      «namespace» := ns
      buildNamespace := buildNs
      assignedBy := "ada"
      assignedAtMs := 0 }
  replace := true
  failures := ⟨none, none, none⟩

/-- **A namespace is given to a second project to build in**: an administrator gives one
project the namespace `shop`, and another one `desk` to run and `shop` to build in. -/
theorem build_namespace_given_twice :
    assignNamespace sharedCluster ⟨"shop"⟩ "shop" none "ada" 0 ⟨none, none, none⟩ =
        .ok (assignedTo "shop" "shop" "shop") ∧
      assignNamespace sharedCluster ⟨"desk"⟩ "desk" (some "shop") "ada" 0 ⟨none, none, none⟩ =
        .ok (assignedTo "desk" "desk" "shop") ∧
      ¬ EveryStep AssignCall.step (fun s c t => t.Exclusive ∧ c.KeptIsStored s) UniqueRows.empty
        [assignedTo "shop" "shop" "shop", assignedTo "desk" "desk" "shop"] := by
  refine ⟨by rfl, by rfl, fun h => ?_⟩
  have hfirst := h _ rfl
  have hsecond := hfirst.2 _ rfl
  have hexclusive := hsecond.1.1 (assignedTo "desk" "desk" "shop").a (.head _)
    (assignedTo "shop" "shop" "shop").a (.tail _ (.head _)) (by decide)
  exact hexclusive ⟨"cluster"⟩ "shop" ⟨rfl, .inr rfl⟩ ⟨rfl, .inl rfl⟩

end Calls

end Environments
end StudioWeb
