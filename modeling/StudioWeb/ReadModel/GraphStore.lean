import StudioWeb.Library.DistinctBy
import StudioWeb.Library.InsertionMap
import StudioWeb.Library.JsonObject

/-!
# The graph of domain objects

`store.rs`: the nodes and edges that a domain store keeps, after
`InMemoryDomainStore`, and the trait's own `neighbours`.  A deleted object stays in
the graph, marked, and so do its relations.

A hash map lists its entries in no order; here they have the order of their first
insertion, and nothing is proved that depends on it.
-/

namespace StudioWeb
namespace ReadModel

open JsonText List

structure ObjectNode where
  typeId : String
  instanceId : String
  value : Json

structure NodeUpsert where
  /-- `some 0`: the node must not exist. -/
  expectedVersion : Option Int
  typeId : String
  nodeKey : String
  payload : Json

structure EdgeUpsert where
  typeId : String
  src : String
  dst : String
  discriminator : Option String
deriving DecidableEq

structure EdgeView where
  typeId : String
  src : String
  dst : String
  /-- Which declared relation the edge is; without one it answers for every
  relation of its verb. -/
  relation : Option String
  key : Option String
deriving DecidableEq

/-- One step of a query along a relation. -/
structure Hop where
  edgeTypeId : String
  relation : Option String
  nodeTypeIds : List String
  reverse : Bool

def Hop.near (hop : Hop) (e : EdgeView) : String :=
  if hop.reverse then e.dst else e.src

def Hop.far (hop : Hop) (e : EdgeView) : String :=
  if hop.reverse then e.src else e.dst

/-- The edge names another relation of the verb. -/
def namesOther (want is : Option String) : Bool :=
  match want, is with
  | some want, some is => want != is
  | _, _ => false

def Hop.reaches (hop : Hop) (e : EdgeView) (seeds : List String) : Option String :=
  if e.typeId ≠ hop.edgeTypeId then none
  else if namesOther hop.relation e.relation then none
  else if hop.near e ∈ seeds then some (hop.far e)
  else none

def DELETED_FIELD : String := "_deleted"

/-- False for an object marked deleted. -/
def isLive (value : Json) : Bool := !((value.get? DELETED_FIELD).bind Json.bool?).getD false

structure Neighbourhood where
  /-- Each turned to run from the seed. -/
  edges : List EdgeView
  nodes : List ObjectNode
  truncated : Bool

def VERSION_TAKEN : String := "domain-model: node version already taken"

structure Graph where
  nodes : InsertionMap String ObjectNode
  edges : InsertionMap String EdgeView

namespace Graph

def empty : Graph := ⟨.empty, .empty⟩

def edgeKey (typeId src dst : String) : String := s!"{typeId}|{src}|{dst}"

/-- The key an edge is kept under, with the relation it names. -/
def entryKey (typeId src dst : String) (relation : Option String) : String :=
  edgeKey typeId src dst ++ "|" ++ relation.getD ""

def edgeEntry (typeId src dst : String) (relation : Option String) : String × EdgeView :=
  (entryKey typeId src dst relation, ⟨typeId, src, dst, relation, none⟩)

def upsertNode (g : Graph) (n : NodeUpsert) : Graph :=
  { g with nodes := g.nodes.set n.nodeKey ⟨n.typeId, n.nodeKey, n.payload⟩ }

/-- The nodes of a batch in turn; one that is refused leaves those before it written. -/
def insertNodes (g : Graph) : List NodeUpsert → Graph × Except String Unit
  | [] => (g, .ok ())
  | n :: rest =>
    if n.expectedVersion = some 0 ∧ n.nodeKey ∈ g.nodes.keys then
      (g, .error s!"{VERSION_TAKEN}: {n.nodeKey}")
    else
      insertNodes (g.upsertNode n) rest

def upsertNodes (g : Graph) (nodes : List NodeUpsert) : Graph × Except String Nat :=
  let written := g.insertNodes nodes
  (written.1, written.2.map fun _ => nodes.length)

def upsertEdge (g : Graph) (e : EdgeUpsert) : Graph :=
  let entry := edgeEntry e.typeId e.src e.dst e.discriminator
  { g with edges := g.edges.set entry.1 entry.2 }

def upsertEdges (g : Graph) (edges : List EdgeUpsert) : Graph := edges.foldl upsertEdge g

def createRelation (g : Graph) (edgeTypeId src dst : String) (discriminator : Option String) :
    Graph :=
  g.upsertEdge ⟨edgeTypeId, src, dst, discriminator⟩

/-- The edge goes with the relation: it is the one named, or names none. -/
def isRelation (edgeTypeId src dst : String) (relation : Option String) (e : EdgeView) : Bool :=
  e.typeId == edgeTypeId && e.src == src && e.dst == dst &&
    (relation.isNone || e.relation.isNone || e.relation == relation)

def deleteRelation (g : Graph) (edgeTypeId src dst : String) (relation : Option String) :
    Graph × Bool :=
  let kept := g.edges.keepIf fun e => !isRelation edgeTypeId src dst relation e
  ({ g with edges := kept }, kept.size != g.edges.size)

def getObject (g : Graph) (instanceId : String) : Option ObjectNode :=
  (g.nodes.get? instanceId).filter fun n => isLive n.value

def listObjects (g : Graph) (typeIds : List String) : List ObjectNode :=
  g.nodes.values.filter fun n => decide (n.typeId ∈ typeIds) && isLive n.value

def readEdges (g : Graph) (seeds : List String) : List EdgeView :=
  g.edges.values.filter fun e => decide (e.src ∈ seeds) || decide (e.dst ∈ seeds)

/-- The hop's edges, turned to run from the seed. -/
def follow (g : Graph) (seeds : List String) (hop : Hop) : List EdgeView :=
  (g.readEdges seeds).filterMap fun e =>
    (hop.reaches e seeds).map fun far => { e with src := hop.near e, dst := far }

def neighbours (g : Graph) (seeds : List String) (hop : Hop) : Neighbourhood :=
  let edges := distinctBy (fun e => (e.src, e.dst)) (g.follow seeds hop)
  let far := distinctBy id (edges.map EdgeView.dst)
  ⟨edges, far.filterMap fun id => (g.getObject id).filter fun n => n.typeId ∈ hop.nodeTypeIds,
    false⟩

section Facts

variable {g : Graph}

@[simp] theorem edges_upsertNode (n : NodeUpsert) : (g.upsertNode n).edges = g.edges := by
  rfl

variable (nodes : List NodeUpsert)

theorem edges_foldl_upsertNode :
    (nodes.foldl upsertNode g).edges = g.edges := by
  induction nodes generalizing g with
  | nil => rfl
  | cons _ _ ih =>
    rw [foldl_cons, ih, edges_upsertNode]

theorem edges_insertNodes : (g.insertNodes nodes).1.edges = g.edges := by
  induction nodes generalizing g with
  | nil => rfl
  | cons _ _ ih =>
    unfold insertNodes
    split
    · rfl
    · rw [ih, edges_upsertNode]

theorem nodes_foldl_upsertNode :
    (nodes.foldl upsertNode g).nodes =
      g.nodes.setAll NodeUpsert.nodeKey (fun n => ⟨n.typeId, n.nodeKey, n.payload⟩) nodes := by
  unfold InsertionMap.setAll
  induction nodes generalizing g with
  | nil => rfl
  | cons _ _ ih =>
    rw [foldl_cons, ih]
    rfl

theorem nodes_upsertEdges (edges : List EdgeUpsert) : (g.upsertEdges edges).nodes = g.nodes := by
  unfold upsertEdges
  induction edges generalizing g with
  | nil => rfl
  | cons _ _ ih =>
    rw [foldl_cons, ih]
    rfl

theorem mem_follow {seeds : List String} {hop : Hop} {v : EdgeView} :
    v ∈ g.follow seeds hop ↔ ∃ e ∈ g.edges.values, e.typeId = hop.edgeTypeId ∧
        namesOther hop.relation e.relation = false ∧ hop.near e ∈ seeds ∧
        v = { e with src := hop.near e, dst := hop.far e } := by
  simp only [follow, readEdges, mem_filterMap, mem_filter, Option.map_eq_some_iff,
    Hop.reaches]
  constructor
  · rintro ⟨e, ⟨he, _⟩, far, hreaches, rfl⟩
    split_ifs at hreaches with htype hother hnear
    cases hreaches
    exact ⟨e, he, not_not.mp htype, by simpa using hother, hnear, rfl⟩
  · rintro ⟨e, he, htype, hother, hnear, rfl⟩
    refine ⟨e, ⟨he, ?_⟩, hop.far e, ?_, rfl⟩
    · unfold Hop.near at hnear
      split at hnear <;> simp [hnear]
    · rw [if_neg (not_not.mpr htype), hother, if_neg Bool.false_ne_true, if_pos hnear]

end Facts

end Graph

end ReadModel
end StudioWeb
