import StudioWeb.Library.LabelledRuns
import StudioWeb.Library.WriteThrough
import StudioWeb.ReadModel.GraphWrites

/-!
# The read model under concurrency

The mirrored store and `fill_tenant` of `mirror.rs` as a step relation: every write of
the graph and every statement of the mirror is a step, and the operations and fills of
several processes go on between them.  A statement may fail after the write of the graph
before it; then the operation withdraws the read model.

Operations are named by the moment of their write of the graph.  `written` tells which
write was the last that a row depends on, and the moments in a fill's phase tell when it
cleared and read; no step looks at them.
-/

namespace StudioWeb
namespace ReadModel

open LabelledRuns WriteThrough

universe u

inductive RowKey where
  | object (id : String)
  | edge (row : EdgeRow)
deriving DecidableEq

inductive Cell where
  | object (row : ObjectRow)
  | edge

def rowsOf (m : DomainMirror) : RowKey → Option Cell
  | .object id => (m.objects.get? id).map .object
  | .edge row => if row ∈ m.edges then some .edge else none

def Graph.relates (g : Graph) (row : EdgeRow) : Bool :=
  g.edges.values.any fun e =>
    isRelationType e.typeId && decide (edgeRow e.typeId e.src e.dst e.relation = row) &&
      decide (g.HasObject e.src) && decide (g.HasObject e.dst)

/-- The rows that the graph should have: its live objects, and the relations between
them. -/
def truthOf (g : Graph) : RowKey → Option Cell
  | .object id => (g.liveObject? id).map fun n =>
    .object (rowOf n.typeId n.instanceId n.value)
  | .edge row => if g.relates row then some .edge else none

/-- A write of the mirror. -/
inductive Statement where
  | writeObjects (rows : List ObjectRow)
  | deleteEdgesOf (ids : List String)
  | deleteObjects (ids : List String)
  | writeEdges (rows : List EdgeRow)
  | deleteEdge (edgeTypeId src dst : String) (relation : Option String)

/-- The mirror after a statement, and whether it went through. -/
def Statement.run (m : DomainMirror) : Statement → DomainMirror × Bool
  | .writeObjects rows => m.writeObjects rows true
  | .deleteEdgesOf ids => (m.deleteEdgesOf ids, true)
  | .deleteObjects ids => (m.deleteObjects ids, true)
  | .writeEdges rows => (m.writeEdges rows, true)
  | .deleteEdge edgeTypeId src dst relation => (m.deleteEdge edgeTypeId src dst relation, true)

def Statement.change : Statement → Change RowKey Cell
  | .writeObjects rows, .object id =>
    (rows.find? fun row => row.instanceId = id).map fun row => some (.object row)
  | .deleteEdgesOf ids, .edge row => if row.src ∈ ids ∨ row.dst ∈ ids then some none else none
  | .deleteObjects ids, .object id => if id ∈ ids then some none else none
  | .writeEdges rows, .edge row => if row ∈ rows then some (some .edge) else none
  | .deleteEdge edgeTypeId src dst relation, .edge row =>
    if row.edgeTypeId == edgeTypeId && row.src == src && row.dst == dst &&
        DomainMirror.answersFor relation row then
      some none
    else
      none
  | _, _ => none

/-- What an operation has still to do after its write of the graph. -/
inductive Todo where
  | bump
  | write (statement : Statement)
  | unfill

def Todo.change? : Todo → Option (Change RowKey Cell)
  | .write statement => some statement.change
  | _ => none

def Todo.isUnfill : Todo → Bool
  | .unfill => true
  | _ => false

/-- `after_nodes`. -/
def afterNodesTodo (nodes : List NodeUpsert) : List Todo :=
  let (live, gone) := objectRows nodes
  (if gone.isEmpty then [] else [.bump]) ++
    [.write (.writeObjects live), .write (.deleteEdgesOf gone), .write (.deleteObjects gone)]

/-- The graph's part of a call, and what it leaves to do; a batch that the graph refuses
leaves nothing. -/
def graphWrite (g : Graph) : Mutation → Graph × List Todo
  | .upsertNodes nodes =>
    match g.upsertNodes nodes with
    | (g, .error _) => (g, [])
    | (g, .ok _) => (g, afterNodesTodo nodes)
  | .createRelation edgeTypeId src dst discriminator =>
    (g.createRelation edgeTypeId src dst discriminator,
      if isRelationType edgeTypeId then
        [.write (.writeEdges [edgeRow edgeTypeId src dst discriminator])]
      else
        [])
  | .upsertEdges edges =>
    (g.upsertEdges edges,
      [.write (.writeEdges ((edges.filter fun e => isRelationType e.typeId).map fun e =>
        edgeRow e.typeId e.src e.dst e.discriminator))])
  | .deleteRelation edgeTypeId src dst relation =>
    ((g.deleteRelation edgeTypeId src dst relation).1,
      [.bump, .write (.deleteEdge edgeTypeId src dst relation)])

section System

variable (P : Type u)

/-- A call after its write of the graph. -/
structure Operation where
  process : P
  /-- It has moved the generation of its process. -/
  bumped : Bool
  rest : List Todo

/-- How far `fill_tenant` is. -/
inductive FillPhase where
  | begun
  | objectsCleared (clearedAt : Nat)
  | cleared (objectsAt edgesAt : Nat)
  | listed (edgesAt readAt : Nat) (objects : List ObjectNode)
  | objectsWritten (edgesAt : Nat) (ids : List String)
  | edgesRead (readAt : Nat) (rows : List EdgeRow)
  | edgesWritten
  | checked

structure TenantFill where
  typeIds : List String
  generation : Nat
  phase : FillPhase

structure System where
  graph : Graph
  mirror : DomainMirror
  generation : P → Nat
  /-- The operations under way, by the moment of their write of the graph. -/
  ops : Nat → Option (Operation P)
  /-- A process runs one fill of the tenant at a time. -/
  fills : P → Option TenantFill
  clock : Nat
  written : RowKey → Nat

inductive Action where
  /-- The graph takes a call. -/
  | graphWrite (p : P) (call : Mutation)
  /-- The graph refuses to delete a relation; the store withdraws all the same. -/
  | graphFails (p : P)
  /-- An operation does the next of what it has to do. -/
  | next (n : Nat)
  /-- The statement that is next fails. -/
  | mirrorFails (n : Nat)
  | fillBegins (p : P) (typeIds : List String)
  | fillNext (p : P)
  | fillFails (p : P)

variable {P} [DecidableEq P]

namespace System

def setOp (s : System P) (n : Nat) (o : Option (Operation P)) : System P :=
  { s with ops := Function.update s.ops n o }

def setFill (s : System P) (p : P) (f : Option TenantFill) : System P :=
  { s with fills := Function.update s.fills p f }

def bump (s : System P) (p : P) : System P :=
  { s with generation := Function.update s.generation p (s.generation p + 1) }

/-- `withdraw`: the generation moves at once, the fill row goes in a step of its own. -/
def withdraw (s : System P) (n : Nat) (o : Operation P) : System P :=
  (s.bump o.process).setOp n (some { o with rest := [.unfill] })

/-- The operation with what is left of it. -/
def advance (s : System P) (n : Nat) (o : Operation P) (rest : List Todo) : System P :=
  s.setOp n (if rest.isEmpty then none else some { o with rest := rest })

/-- The rows that the rest of an operation sets, and to what. -/
def settled (todo : List Todo) : RowKey → Option (Option Cell) :=
  settle (todo.filterMap Todo.change?)

/-- One step of `fill_tenant`. -/
def fillStep (s : System P) (p : P) (f : TenantFill) : System P :=
  match f.phase with
  | .begun =>
    { s with mirror := { s.mirror with objects := .empty } }.setFill p
      (some { f with phase := .objectsCleared s.clock })
  | .objectsCleared objectsAt =>
    { s with mirror := { s.mirror with edges := [] } }.setFill p
      (some { f with phase := .cleared objectsAt s.clock })
  | .cleared _ edgesAt =>
    s.setFill p (some { f with phase := .listed edgesAt s.clock (s.graph.listObjects f.typeIds) })
  | .listed edgesAt _ objects =>
    let rows := objects.map fun o => rowOf o.typeId o.instanceId o.value
    { s with mirror := (s.mirror.writeObjects rows false).1 }.setFill p
      (some { f with phase := .objectsWritten edgesAt (objects.map ObjectNode.instanceId) })
  | .objectsWritten _ ids =>
    let edges := (s.graph.readEdges ids).filter fun e => isRelationType e.typeId
    let rows := edges.map fun e => edgeRow e.typeId e.src e.dst e.relation
    s.setFill p (some { f with phase := .edgesRead s.clock rows })
  | .edgesRead _ rows =>
    { s with mirror := s.mirror.writeEdges rows }.setFill p (some { f with phase := .edgesWritten })
  | .edgesWritten =>
    if s.generation p = f.generation then
      s.setFill p (some { f with phase := .checked })
    else
      -- a write was missed while the fill ran
      s.setFill p none
  | .checked => { s with mirror := s.mirror.markFilled }.setFill p none

def step (s : System P) : Action P → Option (System P)
  | .graphWrite p call =>
    let (graph, todo) := StudioWeb.ReadModel.graphWrite s.graph call
    if todo.isEmpty then
      some { s with graph := graph }
    else
      some ({ s with
        graph := graph
        clock := s.clock + 1
        written := fun k => if (settled todo k).isSome then s.clock else s.written k
      }.setOp s.clock (some ⟨p, false, todo⟩))
  | .graphFails p => some ({ s with clock := s.clock + 1 }.withdraw s.clock ⟨p, false, []⟩)
  | .next n =>
    match s.ops n with
    | none => none
    | some o =>
      match o.rest with
      | [] => none
      | .bump :: rest =>
        some ((s.bump o.process).setOp n (some { o with bumped := true, rest := rest }))
      | .write statement :: rest =>
        match statement.run s.mirror with
        | (mirror, true) => some ({ s with mirror := mirror }.advance n o rest)
        | (mirror, false) => some ({ s with mirror := mirror }.withdraw n o)
      | .unfill :: rest =>
        some ({ s with mirror := s.mirror.unfill }.advance n o rest)
  | .mirrorFails n =>
    match s.ops n with
    | none => none
    | some o =>
      match o.rest with
      | .write _ :: _ => some (s.withdraw n o)
      -- the fill row could not be removed either
      | .unfill :: rest => some (s.advance n o rest)
      | _ => none
  | .fillBegins p typeIds =>
    match s.fills p with
    | some _ => none
    | none => some (s.setFill p (some ⟨typeIds, s.generation p, .begun⟩))
  | .fillNext p =>
    match s.fills p with
    | none => none
    | some f => some (s.fillStep p f)
  | .fillFails p =>
    match s.fills p with
    | none => none
    | some _ => some (s.setFill p none)

end System

end System

end ReadModel
end StudioWeb
