import StudioWeb.ReadModel.GraphStore

/-!
# The read model of the graph

`mirror.rs`: the rows of a tenant's live objects and of their relations, the
statements that change them, and the domain store that writes the graph first and
then the rows.

Only one tenant is looked at.  The `IN` lists of a statement are not split here; the
rows of an insert are, because the database refuses an upsert that names a row twice
in one statement.
-/

namespace StudioWeb
namespace ReadModel

open JsonText List

def ROWS_PER_STATEMENT : Nat := 500

def OBJECT_TYPE_PREFIX : String := "gts.cf.studio.domain."

def RELATION_TYPE_PREFIX : String := "gts.cf.studio.domainrel."

/-- A domain object's node type, not the meta layer's. -/
def isObjectType (typeId : String) : Bool := OBJECT_TYPE_PREFIX.toList.isPrefixOf typeId.toList

/-- A relation between objects, not a meta edge. -/
def isRelationType (typeId : String) : Bool := RELATION_TYPE_PREFIX.toList.isPrefixOf typeId.toList

structure ObjectRow where
  instanceId : String
  typeId : String
  payload : Json

structure EdgeRow where
  edgeTypeId : String
  src : String
  dst : String
  relation : String
deriving DecidableEq

def withoutNulText (s : String) : String :=
  String.ofList (s.toList.filter fun c => c != Char.ofNat 0)

mutual

/-- The database refuses U+0000 in text. -/
def withoutNul : Json → Json
  | .str s => .str (withoutNulText s)
  | .arr items => .arr (withoutNulItems items)
  | .obj fields => Json.object (withoutNulFields fields)
  | other => other

def withoutNulItems : List Json → List Json
  | [] => []
  | v :: rest => withoutNul v :: withoutNulItems rest

def withoutNulFields : List (String × Json) → List (String × Json)
  | [] => []
  | (key, v) :: rest => (withoutNulText key, withoutNul v) :: withoutNulFields rest

end

def rowOf (typeId instanceId : String) (payload : Json) : ObjectRow :=
  ⟨instanceId, typeId, withoutNul payload⟩

def edgeRow (typeId src dst : String) (relation : Option String) : EdgeRow :=
  ⟨typeId, src, dst, relation.getD ""⟩

def toNode (row : ObjectRow) : ObjectNode := ⟨row.typeId, row.instanceId, row.payload⟩

/-- The rows for written nodes: the live ones to upsert, and the ids of those now
marked deleted. -/
def objectRows (nodes : List NodeUpsert) : List ObjectRow × List String :=
  let objects := nodes.filter fun n => isObjectType n.typeId
  ((objects.filter fun n => isLive n.payload).map fun n => rowOf n.typeId n.nodeKey n.payload,
    (objects.filter fun n => !isLive n.payload).map NodeUpsert.nodeKey)

structure DomainMirror where
  objects : InsertionMap String ObjectRow
  edges : List EdgeRow
  /-- The tenant's fill row is there. -/
  filled : Bool

namespace DomainMirror

def clear (m : DomainMirror) : DomainMirror :=
  { m with objects := .empty, edges := [] }

def unfill (m : DomainMirror) : DomainMirror :=
  { m with filled := false }

def markFilled (m : DomainMirror) : DomainMirror :=
  { m with filled := true }

/-- One row of an insert; without `replace` a row that is there stays. -/
def insertObject (replace : Bool) (objects : InsertionMap String ObjectRow) (row : ObjectRow) :
    InsertionMap String ObjectRow :=
  if !replace && decide (row.instanceId ∈ objects.keys) then objects
  else objects.set row.instanceId row

/-- The rows of a batch by statement, with as much fuel as there are rows. -/
def chunks {α : Type} (size : Nat) : Nat → List α → List (List α)
  | 0, _ => []
  | _, [] => []
  | fuel + 1, xs => xs.take size :: chunks size fuel (xs.drop size)

/-- The statements in turn, and whether all went through. -/
def insertObjects (replace : Bool) (m : DomainMirror) :
    List (List ObjectRow) → DomainMirror × Bool
  | [] => (m, true)
  | rows :: rest =>
    if replace ∧ ¬ (rows.map ObjectRow.instanceId).Nodup then
      (m, false)
    else
      insertObjects replace
        { m with objects := rows.foldl (insertObject replace) m.objects } rest

def writeObjects (m : DomainMirror) (rows : List ObjectRow) (replace : Bool) :
    DomainMirror × Bool :=
  insertObjects replace m (chunks ROWS_PER_STATEMENT rows.length rows)

def insertEdge (edges : List EdgeRow) (row : EdgeRow) : List EdgeRow :=
  if row ∈ edges then edges else edges ++ [row]

def writeEdges (m : DomainMirror) (rows : List EdgeRow) : DomainMirror :=
  { m with edges := rows.foldl insertEdge m.edges }

def deleteObjects (m : DomainMirror) (ids : List String) : DomainMirror :=
  { m with objects := m.objects.keepIf fun row => !decide (row.instanceId ∈ ids) }

/-- The relations of objects that are gone. -/
def deleteEdgesOf (m : DomainMirror) (ids : List String) : DomainMirror :=
  { m with edges := m.edges.filter fun row => !(decide (row.src ∈ ids) || decide (row.dst ∈ ids)) }

/-- The row is of the named relation, or names none. -/
def answersFor (relation : Option String) (row : EdgeRow) : Bool :=
  relation.all fun r => decide (row.relation ∈ [r, ""])

def deleteEdge (m : DomainMirror) (edgeTypeId src dst : String) (relation : Option String) :
    DomainMirror :=
  { m with edges := m.edges.filter fun row =>
      !(row.edgeTypeId == edgeTypeId && row.src == src && row.dst == dst &&
        answersFor relation row) }

/-- The rows of a hop, turned to run from the seed. -/
def follow (m : DomainMirror) (seeds : List String) (hop : Hop) : List EdgeView :=
  (m.edges.filter fun row =>
      row.edgeTypeId == hop.edgeTypeId &&
        decide ((if hop.reverse then row.dst else row.src) ∈ seeds) &&
        answersFor hop.relation row).map fun row =>
    let ends := if hop.reverse then (row.dst, row.src) else (row.src, row.dst)
    ⟨row.edgeTypeId, ends.1, ends.2, (some row.relation).filter fun r => r != "", none⟩

def hop (m : DomainMirror) (seeds : List String) (hop : Hop) : Neighbourhood :=
  let edges := distinctBy (fun e => (e.src, e.dst)) (m.follow seeds hop)
  let far := distinctBy id (edges.map EdgeView.dst)
  ⟨edges, (m.objects.values.filter fun row =>
      decide (row.instanceId ∈ far) && decide (row.typeId ∈ hop.nodeTypeIds)).map toNode,
    false⟩

section Facts

variable {m : DomainMirror}

theorem flatten_chunks {α : Type} {size : Nat} (hsize : 0 < size) :
    ∀ (fuel : Nat) (xs : List α), xs.length ≤ fuel → (chunks size fuel xs).flatten = xs
  | 0, xs, h => by
    have hnil : xs = [] := length_eq_zero_iff.mp (by omega)
    rw [hnil]
    rfl
  | fuel + 1, [], _ => rfl
  | fuel + 1, x :: xs, h => by
    have hlength : ((x :: xs).drop size).length ≤ fuel := by
      rw [length_drop]
      omega
    have ih := flatten_chunks hsize fuel _ hlength
    simp only [chunks, flatten_cons]
    rw [ih, take_append_drop]

theorem insertObjects_of_nodup {replace : Bool} :
    ∀ {statements : List (List ObjectRow)} {m : DomainMirror},
      (statements.flatten.map ObjectRow.instanceId).Nodup →
      insertObjects replace m statements =
        ({ m with objects := statements.flatten.foldl (insertObject replace) m.objects }, true)
  | [], _, _ => rfl
  | rows :: rest, m, h => by
    rw [flatten_cons, map_append, nodup_append] at h
    unfold insertObjects
    rw [if_neg (by simp [h.1]), insertObjects_of_nodup h.2.1, flatten_cons, foldl_append]

theorem writeObjects_of_nodup {rows : List ObjectRow} {replace : Bool}
    (h : (rows.map ObjectRow.instanceId).Nodup) :
    m.writeObjects rows replace =
      ({ m with objects := rows.foldl (insertObject replace) m.objects }, true) := by
  have hflatten : (chunks ROWS_PER_STATEMENT rows.length rows).flatten = rows :=
    flatten_chunks (by decide) rows.length rows (Nat.le_refl _)
  rw [writeObjects, insertObjects_of_nodup (by rw [hflatten]; exact h), hflatten]

theorem insertObjects_keep :
    ∀ (statements : List (List ObjectRow)) (m : DomainMirror), insertObjects false m statements =
        ({ m with objects := statements.flatten.foldl (insertObject false) m.objects }, true)
  | [], _ => rfl
  | rows :: rest, m => by
    unfold insertObjects
    rw [if_neg (by simp), insertObjects_keep rest, flatten_cons, foldl_append]

theorem writeObjects_keep (rows : List ObjectRow) :
    m.writeObjects rows false =
      ({ m with objects := rows.foldl (insertObject false) m.objects }, true) := by
  have hflatten : (chunks ROWS_PER_STATEMENT rows.length rows).flatten = rows :=
    flatten_chunks (by decide) rows.length rows (Nat.le_refl _)
  rw [writeObjects, insertObjects_keep, hflatten]

variable (objects : InsertionMap String ObjectRow)

theorem foldl_insertObject_replace
 (rows : List ObjectRow) :
    rows.foldl (insertObject true) objects = objects.setAll ObjectRow.instanceId id rows := by
  rfl

theorem get?_insertObject_keep
 (row : ObjectRow) (id : String) :
    (insertObject false objects row).get? id =
      (objects.get? id).or (if id = row.instanceId then some row else none) := by
  unfold insertObject
  by_cases hmem : row.instanceId ∈ objects.keys
  · obtain ⟨old, hold⟩ := (objects.mem_keys_iff _).mp hmem
    by_cases hid : id = row.instanceId
    · subst hid
      simp [hmem, hold]
    · simp [hmem, hid]
  · have hnone := (objects.get?_eq_none_iff _).mpr hmem
    by_cases hid : id = row.instanceId
    · subst hid
      simp [hmem, hnone]
    · simp [hmem, InsertionMap.get?_set, hid]

theorem get?_foldl_insertObject_keep
    {rows : List ObjectRow} {objects : InsertionMap String ObjectRow} {id : String} :
    (rows.foldl (insertObject false) objects).get? id =
      (objects.get? id).or (rows.find? fun row => row.instanceId = id) := by
  induction rows generalizing objects with
  | nil => simp
  | cons row _ ih =>
    rw [foldl_cons, ih, get?_insertObject_keep, find?_cons]
    by_cases hid : id = row.instanceId
    · subst hid
      cases objects.get? row.instanceId <;> simp
    · have hne : ¬ row.instanceId = id := fun h => hid h.symm
      simp [hid, hne]

variable {row : EdgeRow}

theorem mem_foldl_insertEdge {rows edges : List EdgeRow} :
    row ∈ rows.foldl insertEdge edges ↔ row ∈ edges ∨ row ∈ rows := by
  induction rows generalizing edges with
  | nil => simp
  | cons r _ ih =>
    have hstep : row ∈ insertEdge edges r ↔ row ∈ edges ∨ row = r := by
      unfold insertEdge
      split
      · next hmem =>
        constructor
        · exact Or.inl
        · rintro (h | rfl)
          · exact h
          · exact hmem
      · simp
    rw [foldl_cons, ih, hstep, mem_cons, or_assoc]

@[simp] theorem mem_writeEdges {rows : List EdgeRow} :
    row ∈ (m.writeEdges rows).edges ↔ row ∈ m.edges ∨ row ∈ rows :=
  mem_foldl_insertEdge

@[simp] theorem mem_deleteEdgesOf {ids : List String} :
    row ∈ (m.deleteEdgesOf ids).edges ↔ row ∈ m.edges ∧ row.src ∉ ids ∧ row.dst ∉ ids := by
  simp [deleteEdgesOf]

theorem get?_deleteObjects {ids : List String} {id : String} :
    (m.deleteObjects ids).objects.get? id =
      (m.objects.get? id).filter fun row => !decide (row.instanceId ∈ ids) :=
  InsertionMap.get?_keepIf _ _ _

theorem mem_follow {seeds : List String} {hop : Hop} {v : EdgeView} :
    v ∈ m.follow seeds hop ↔
      ∃ row ∈ m.edges, row.edgeTypeId = hop.edgeTypeId ∧ answersFor hop.relation row = true ∧
        (if hop.reverse then row.dst else row.src) ∈ seeds ∧
        v = ⟨row.edgeTypeId, if hop.reverse then row.dst else row.src,
          if hop.reverse then row.src else row.dst,
          (some row.relation).filter fun r => r != "", none⟩ := by
  simp only [follow, mem_map, mem_filter, Bool.and_eq_true, beq_iff_eq,
    decide_eq_true_eq]
  constructor
  · rintro ⟨row, ⟨hrow, ⟨htype, hnear⟩, hfor⟩, rfl⟩
    refine ⟨row, hrow, htype, hfor, hnear, ?_⟩
    split <;> rfl
  · rintro ⟨row, hrow, htype, hfor, hnear, rfl⟩
    refine ⟨row, ⟨hrow, ⟨htype, hnear⟩, hfor⟩, ?_⟩
    split <;> rfl

end Facts

end DomainMirror

/-- A call that changes a domain store. -/
inductive Mutation where
  | upsertNodes (nodes : List NodeUpsert)
  | createRelation (edgeTypeId src dst : String) (discriminator : Option String)
  | upsertEdges (edges : List EdgeUpsert)
  | deleteRelation (edgeTypeId src dst : String) (relation : Option String)

/-- A domain store with the mirror behind its writes, and the generation that its fills
of the tenant compare. -/
structure IndexedDomainStore where
  inner : Graph
  mirror : DomainMirror
  generation : Nat

namespace IndexedDomainStore

def bump (s : IndexedDomainStore) : IndexedDomainStore :=
  { s with generation := s.generation + 1 }

/-- Stop serving the tenant from the mirror. -/
def withdraw (s : IndexedDomainStore) : IndexedDomainStore :=
  { s.bump with mirror := s.mirror.unfill }

def afterNodes (s : IndexedDomainStore) (nodes : List NodeUpsert) : IndexedDomainStore :=
  let (live, gone) := objectRows nodes
  let s := if gone.isEmpty then s else s.bump
  match s.mirror.writeObjects live true with
  | (mirror, false) => withdraw { s with mirror := mirror }
  | (mirror, true) =>
    { s with mirror := (mirror.deleteEdgesOf gone).deleteObjects gone }

def upsertNodes (s : IndexedDomainStore) (nodes : List NodeUpsert) :
    IndexedDomainStore × Except String Nat :=
  match s.inner.upsertNodes nodes with
  | (inner, .error error) => ({ s with inner := inner }, .error error)
  | (inner, .ok count) => (afterNodes { s with inner := inner } nodes, .ok count)

def createRelation (s : IndexedDomainStore) (edgeTypeId src dst : String)
    (discriminator : Option String) : IndexedDomainStore :=
  let s := { s with inner := s.inner.createRelation edgeTypeId src dst discriminator }
  if isRelationType edgeTypeId then
    { s with mirror := s.mirror.writeEdges [edgeRow edgeTypeId src dst discriminator] }
  else
    s

def deleteRelation (s : IndexedDomainStore) (edgeTypeId src dst : String)
    (relation : Option String) : IndexedDomainStore × Bool :=
  let (inner, removed) := s.inner.deleteRelation edgeTypeId src dst relation
  let s := bump { s with inner := inner }
  ({ s with mirror := s.mirror.deleteEdge edgeTypeId src dst relation }, removed)

def upsertEdges (s : IndexedDomainStore) (edges : List EdgeUpsert) : IndexedDomainStore :=
  let relations := edges.filter fun e => isRelationType e.typeId
  { s with
    inner := s.inner.upsertEdges edges
    mirror := s.mirror.writeEdges
      (relations.map fun e => edgeRow e.typeId e.src e.dst e.discriminator) }

/-- Copy the tenant's live objects and their relations into the mirror, then declare it
complete. -/
def fillTenant (s : IndexedDomainStore) (typeIds : List String) : IndexedDomainStore :=
  let objects := s.inner.listObjects typeIds
  let ids := objects.map ObjectNode.instanceId
  let rows := objects.map fun o => rowOf o.typeId o.instanceId o.value
  let edges := ((s.inner.readEdges ids).filter fun e => isRelationType e.typeId).map fun e =>
    edgeRow e.typeId e.src e.dst e.relation
  let copied := (s.mirror.clear.writeObjects rows false).1
  { s with mirror := (copied.writeEdges edges).markFilled }

variable (s : IndexedDomainStore) (nodes : List NodeUpsert)

theorem inner_afterNodes :
    (s.afterNodes nodes).inner = s.inner := by
  unfold afterNodes
  dsimp only
  split <;> split <;> rfl

theorem inner_upsertNodes :
    (s.upsertNodes nodes).1.inner = (s.inner.insertNodes nodes).1 := by
  unfold upsertNodes Graph.upsertNodes
  cases h : s.inner.insertNodes nodes with
  | mk _ result =>
    cases result with
    | error => rfl
    | ok => exact inner_afterNodes _ nodes

end IndexedDomainStore

end ReadModel
end StudioWeb
