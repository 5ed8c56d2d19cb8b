import StudioWeb.DomainModel.StudioTypes
import Mathlib.Data.List.Sort

/-!
# The stored model and its versions

What `service.rs` keeps of a tenant's model: one node for the document without its
types, one node for each type, one node for each claimed version, and in every
process a cache of the model and the highest version that it has seen claimed.

A version is claimed by creating its node, which fails when the node exists.  The
edges between the type nodes, the time and the author of a revision and the
registration of types are left out, and so is a tenant whose model was never
stored, which runs on the embedded one until it is.
-/

namespace StudioWeb
namespace DomainModel

open JsonText

def EDIT_ATTEMPTS : Nat := 4

/-- A tenant without a stored model: the service stores the embedded one first. -/
def notStored : String := "no stored model"

def contended : String :=
  "the model is being edited concurrently — no version could be claimed in " ++
    s!"{EDIT_ATTEMPTS} attempts"

structure Revision where
  version : Nat
  op : String
  target : String
  summary : String
  patch : List PatchOp
  undo : List PatchOp

/-- An import records no inverse, so nothing can be reverted past it. -/
def Revision.isReversible (r : Revision) : Bool := !r.undo.isEmpty

/-- The node of the document without its types. -/
structure ModelNode where
  head : List (String × Json)
  version : Nat
  entityIds : List String

structure ModelStore where
  model : ModelNode
  types : String → Option Json
  versions : List Revision

structure Cache where
  ontology : Ontology
  version : Nat

/-- What one process knows of the tenant. -/
structure Process where
  cache : Option Cache
  claimed : Nat

namespace ModelStore

variable (s : ModelStore)

/-- `load_from_graph`. A type that the model names and the graph does not have is
passed over. -/
def load : Option Cache :=
  let entities := s.model.entityIds.filterMap s.types
  if entities = [] then
    none
  else
    some ⟨⟨s.model.head, entities⟩, s.model.version⟩

/-- The recorded history, newest first. -/
def revisions : List Revision := s.versions.insertionSort fun a b => b.version ≤ a.version

def topVersion : Nat := (s.revisions.head?.map Revision.version).getD 0

def isClaimed (version : Nat) : Bool := s.versions.any fun r => r.version = version

/-- Create the node of a version, unless it exists. -/
def claim (r : Revision) : Option ModelStore :=
  if s.isClaimed r.version then
    none
  else
    some { s with versions := r :: s.versions }

/-- The nodes of the types that an edit changed. -/
def writeTypes (o : Ontology) (touched : List String) : ModelStore :=
  { s with
    types := touched.foldl (fun types id => Function.update types id (o.entity id)) s.types }

def writeAllTypes (o : Ontology) : ModelStore :=
  { s with
    types := o.entities.foldl (fun types e =>
        match idOf e with
        | none => types
        | some id => Function.update types id (some e))
      s.types }

/-- `model_node`. -/
def writeModel (o : Ontology) (version : Nat) : ModelStore :=
  { s with model := ⟨o.head, version, o.entityIds⟩ }

end ModelStore

def Change.revision (c : Change) (version : Nat) : Revision :=
  { version := version
    op := c.op
    target := c.target
    summary := c.summary
    patch := c.patch
    undo := c.undo }

namespace Process

variable (p : Process)

def cachedVersion : Nat := (p.cache.map Cache.version).getD 0

/-- Past the stored head, and past any number already seen taken. -/
def nextVersion : Nat := max p.cachedVersion p.claimed + 1

def reload (s : ModelStore) : Process :=
  match s.load with
  | none => p
  | some c => { p with cache := some c }

/-- `model_current`: the cached model, reloaded when the stored head has moved. -/
def modelCurrent (s : ModelStore) : Process :=
  match p.cache with
  | none => p.reload s
  | some c => if s.model.version = c.version then p else p.reload s

/-- `note_claimed`, after a claim was refused. -/
def noteClaimed (s : ModelStore) : Process :=
  { p with claimed := max p.claimed s.topVersion }

def adopt (o : Ontology) (version : Nat) : Process :=
  { p with cache := some ⟨o, version⟩ }

end Process

section Versions

variable {s : ModelStore} {p : Process}

variable {r : Revision} {c : Cache}

theorem claim_eq_some {t : ModelStore} (h : s.claim r = some t) :
    s.isClaimed r.version = false ∧ t = { s with versions := r :: s.versions } := by
  unfold ModelStore.claim at h
  split_ifs at h with hclaimed
  cases h
  exact ⟨by simpa using hclaimed, rfl⟩

theorem claim_eq_none : s.claim r = none ↔ s.isClaimed r.version = true := by
  simp [ModelStore.claim]

theorem isClaimed_iff {version : Nat} :
    s.isClaimed version = true ↔ ∃ r ∈ s.versions, r.version = version := by
  simp [ModelStore.isClaimed]

theorem pairwise_revisions (s : ModelStore) :
    s.revisions.Pairwise fun a b => b.version ≤ a.version := by
  have htotal : Std.Total fun a b : Revision => b.version ≤ a.version :=
    ⟨fun a b => Nat.le_total b.version a.version⟩
  have htrans : IsTrans Revision fun a b => b.version ≤ a.version :=
    ⟨fun _ _ _ hab hbc => Nat.le_trans hbc hab⟩
  exact List.pairwise_insertionSort _ s.versions

/-- The newest revision is the first one. -/
theorem version_le_topVersion (hr : r ∈ s.versions) : r.version ≤ s.topVersion := by
  have hsorted : s.revisions.Pairwise fun a b => b.version ≤ a.version := pairwise_revisions s
  have hmem : r ∈ s.revisions := (List.mem_insertionSort _).mpr hr
  unfold ModelStore.topVersion
  cases hrevisions : s.revisions with
  | nil =>
    rw [hrevisions] at hmem
    cases hmem
  | cons =>
    rw [hrevisions] at hmem hsorted
    rcases List.mem_cons.mp hmem with rfl | hrest
    · exact le_rfl
    · exact (List.pairwise_cons.mp hsorted).1 r hrest

theorem load_version (h : s.load = some c) : c.version = s.model.version := by
  simp only [ModelStore.load] at h
  split_ifs at h
  cases h
  rfl

theorem reload_of_load (h : s.load = some c) :
    p.reload s = { p with cache := some c } := by
  simp [Process.reload, h]

/-- An edit starts from a model at the stored head. -/
theorem modelCurrent_version (hstored : s.load.isSome) :
    ∃ c, p.modelCurrent s = { p with cache := some c } ∧ c.version = s.model.version := by
  obtain ⟨loaded, hload⟩ := Option.isSome_iff_exists.mp hstored
  unfold Process.modelCurrent
  split
  · exact ⟨loaded, reload_of_load hload, load_version hload⟩
  · next c hc =>
    split_ifs with hversion
    · refine ⟨c, ?_, hversion.symm⟩
      rw [← hc]
    · exact ⟨loaded, reload_of_load hload, load_version hload⟩

theorem modelCurrent_of_load (hload : s.load = some c) (hcache : p.cache = some c) :
    p.modelCurrent s = p := by
  simp [Process.modelCurrent, hcache, load_version hload]

end Versions

end DomainModel
end StudioWeb
