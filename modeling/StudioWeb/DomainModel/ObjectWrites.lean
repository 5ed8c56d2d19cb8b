import StudioWeb.DomainModel.ValueTypes
import StudioWeb.ReadModel.GraphStore
import Mathlib.Data.List.Infix

/-!
# The writes of domain objects

`create_object`, `patch_object` and `delete_object` of `service.rs`, over the store in
memory: a call plans one node from what it reads, and writes it last.  A deleted object is
marked and stays in the store, where `get_object` leaves it out and an insert that is to be
the first of its key finds it.
-/

namespace StudioWeb
namespace DomainModel

open JsonText ReadModel
open Validate (Report)

/-- What a caller may touch for one action. -/
structure Access where
  /-- `admits_owner` of the `owner_of_scope` of a scope. -/
  admitsScope : Option String → Bool
  admits : ReadModel.ObjectNode → Bool

/-- What a call finds: the tenant's model, the caller's rights to write a type, whether
the types are registered, and the clock. -/
structure CallContext where
  model : Except String Ontology
  access : String → Except String Access
  ensureTypes : Except String Unit
  now : String

inductive ValidateMode where
  | off
  | warn
  | strict
deriving DecidableEq

structure CreatedObject where
  typeId : String
  instanceId : String
  report : Report

/-- A write that passed every check. -/
structure PlannedWrite where
  node : NodeUpsert
  made : CreatedObject
  entityId : String

structure CreateRequest where
  typeRef : String
  key : String
  scope : Option String
  ifAbsent : Bool
  validate : ValidateMode
  payload : Json

section Model

variable (o : Ontology)

namespace Ontology

def heldBy (id : String) : Option String :=
  (((o.entity id).bind fun e => metaField e "held_by").bind Json.str?).filter fun g => g ≠ ""

def fieldHeldBy (id name : String) : Option String :=
  (o.ancestors id).findSome? fun e =>
    (((o.entity e).bind properties).bind fun props =>
      props.find? fun p => nameOf p = some name).bind fun p => p.getStr? "held_by"

def openOwnFields (id : String) : List String :=
  ((((o.entity id).bind properties).getD []).filter fun p =>
    (p.get? "held_by").isNone && p.getStr? "extends" ∉ [some "edge", some "link"]).filterMap nameOf

end Ontology

/-- The text of `AccessError::Held`. -/
def heldText (what gear : String) : String := s!"{what} is kept by {gear}: change it through that gear"

def deniedText : String := "not permitted on domain objects"

def unsatisfiedText (entityId : String) (report : Report) : String :=
  s!"{entityId} does not satisfy its type: " ++
    "; ".intercalate (report.violations.map fun v => s!"{v.field} — {v.detail}")

def objectFields : Json → List (String × Json)
  | .obj fields => fields
  | _ => []

/-- What the type says of a payload. -/
def reportOf (validate : ValidateMode) (entityId : String) (payload : Json) : Report :=
  if validate = .off then ⟨[], []⟩
  else Validate.check (o.effectiveProperties entityId) payload

def endpointEntity (g : Graph) (instanceId which : String) :
    Except String (String × ReadModel.ObjectNode) :=
  match g.getObject instanceId with
  | none => .error s!"no such object: {which}={instanceId}"
  | some node =>
    match o.resolveEntityId node.typeId with
    | none =>
      .error s!"the {which} object is a `{node.typeId}`, which this model has no entity for"
    | some entity => .ok (entity, node)

end Model

section Plans

-- `gts::instance_id`: the UUID of a type and a key.
variable (instanceId : String → String → String)

def scopeOf (scope : Option String) : Option String :=
  (scope.map fun s => String.ofList (Rust.trim s.toList)).filter fun s => s ≠ ""

def instanceKey (scope : Option String) (key : String) : String :=
  match scopeOf scope with
  | some s => s!"{s}|{key}"
  | none => key

/-- Everything `create_object` does before its write. -/
def planCreate (c : CallContext) (r : CreateRequest) :
    Except String PlannedWrite := do
  let ontology ← c.model
  match ontology.resolveEntityId r.typeRef with
  | none => .error s!"unknown domain type: {r.typeRef}"
  | some entityId =>
    if let some gear := ontology.heldBy entityId then
      .error (heldText entityId gear)
    else
      let report := reportOf ontology r.validate entityId r.payload
      if r.validate = .strict ∧ report.isClean = false then
        .error (unsatisfiedText entityId report)
      else
        let write ← c.access entityId
        if write.admitsScope r.scope = false then
          .error deniedText
        else
          let typeId := nodeTypeId entityId
          let id := instanceId typeId (instanceKey r.scope r.key)
          let payload :=
            match scopeOf r.scope with
            | some s => r.payload.setField "_scope" (.str s)
            | none => r.payload
          let _ ← c.ensureTypes
          .ok ⟨⟨if r.ifAbsent then some 0 else none, typeId, id, payload⟩,
            ⟨typeId, id, report⟩, entityId⟩

/-- Everything `patch_object` does before its write. -/
def planPatch (c : CallContext) (g : Graph) (id : String) (set : List (String × Json))
    (unset : List String) (validate : ValidateMode) :
    Except String PlannedWrite := do
  let touched := set.map Prod.fst ++ unset
  if let some reserved := touched.find? fun k => k.toList.head? = some '_' then
    .error s!"`{reserved}` is kept by the store and cannot be changed"
  else
    let ontology ← c.model
    let (entityId, node) ← endpointEntity ontology g id "id"
    let held := (ontology.heldBy entityId).bind fun gear =>
      (touched.find? fun k => k ∉ ontology.openOwnFields entityId ||
        (ontology.fieldHeldBy entityId k).isSome).map fun field => (gear, field)
    if let some (gear, field) := held then
      .error (heldText s!"{entityId}.{field}" gear)
    else
      let write ← c.access entityId
      if write.admits node = false then
        .error deniedText
      else
        let kept := (objectFields node.value).filter fun f => f.1 ∉ unset
        let payload := Json.obj (set.foldl (fun m f => Json.insertField f.1 f.2 m) kept)
        let whole := reportOf ontology validate entityId payload
        -- A patch answers for what it touches.
        let report : Report := ⟨whole.violations.filter fun v => v.field ∈ touched,
          whole.undeclared.filter fun f => f ∈ touched⟩
        if validate = .strict ∧ report.isClean = false then
          .error (unsatisfiedText entityId report)
        else
          let _ ← c.ensureTypes
          .ok ⟨⟨none, node.typeId, node.instanceId, payload⟩,
            ⟨node.typeId, node.instanceId, report⟩, entityId⟩

/-- Everything `delete_object` does before its write. -/
def planDelete (c : CallContext) (g : Graph) (id : String) : Except String NodeUpsert := do
  let ontology ← c.model
  let (entityId, node) ← endpointEntity ontology g id "id"
  if let some gear := ontology.heldBy entityId then
    .error (heldText entityId gear)
  else
    let write ← c.access entityId
    if write.admits node = false then
      .error deniedText
    else
      let marked := Json.insertField "_deleted_at" (.str c.now)
        (Json.insertField DELETED_FIELD (.bool true) (objectFields node.value))
      .ok ⟨none, node.typeId, node.instanceId, .obj marked⟩

end Plans

section Calls

variable (instanceId : String → String → String)

def createObject (c : CallContext) (g : Graph) (r : CreateRequest) :
    Graph × Except String CreatedObject :=
  match planCreate instanceId c r with
  | .error e => (g, .error e)
  | .ok plan =>
    match g.upsertNodes [plan.node] with
    | (t, .ok _) => (t, .ok plan.made)
    | (t, .error e) =>
      (t, .error (if VERSION_TAKEN.toList <:+: e.toList then
        s!"object already exists: type={plan.entityId} key={r.key}" else e))

def patchObject (c : CallContext) (g : Graph) (id : String) (set : List (String × Json))
    (unset : List String) (validate : ValidateMode) : Graph × Except String CreatedObject :=
  match planPatch c g id set unset validate with
  | .error e => (g, .error e)
  | .ok plan =>
    match g.upsertNodes [plan.node] with
    | (t, .ok _) => (t, .ok plan.made)
    | (t, .error e) => (t, .error e)

def deleteObject (c : CallContext) (g : Graph) (id : String) : Graph × Except String Unit :=
  match planDelete c g id with
  | .error e => (g, .error e)
  | .ok node =>
    match g.upsertNodes [node] with
    | (t, .ok _) => (t, .ok ())
    | (t, .error e) => (t, .error e)

inductive Call where
  | create (c : CallContext) (r : CreateRequest)
  | patch (c : CallContext) (id : String) (set : List (String × Json)) (unset : List String)
      (validate : ValidateMode)
  | delete (c : CallContext) (id : String)

def Call.apply (g : Graph) : Call → Graph
  | .create c r => (createObject instanceId c g r).1
  | .patch c id set unset validate => (patchObject c g id set unset validate).1
  | .delete c id => (deleteObject c g id).1

variable {instanceId} {c : CallContext} {g t : Graph} {r : CreateRequest} {e : String}

theorem upsertNodes_one (g : Graph) (n : NodeUpsert) :
    g.upsertNodes [n] =
      if n.expectedVersion = some 0 ∧ n.nodeKey ∈ g.nodes.keys then
        (g, .error s!"{VERSION_TAKEN}: {n.nodeKey}")
      else
        (g.upsertNode n, .ok 1) := by
  unfold Graph.upsertNodes Graph.insertNodes
  split_ifs <;> rfl

theorem createObject_failed (h : createObject instanceId c g r = (t, .error e)) : t = g := by
  unfold createObject at h
  cases hplan : planCreate instanceId c r with
  | error =>
    rw [hplan] at h
    exact (Prod.mk.inj h).1.symm
  | ok =>
    simp only [hplan, upsertNodes_one] at h
    split_ifs at h
    · exact (Prod.mk.inj h).1.symm
    · cases (Prod.mk.inj h).2

theorem patchObject_failed {id : String} {set : List (String × Json)} {unset : List String}
    {validate : ValidateMode} (h : patchObject c g id set unset validate = (t, .error e)) :
    t = g := by
  unfold patchObject at h
  cases hplan : planPatch c g id set unset validate with
  | error =>
    rw [hplan] at h
    exact (Prod.mk.inj h).1.symm
  | ok =>
    simp only [hplan, upsertNodes_one] at h
    split_ifs at h
    · exact (Prod.mk.inj h).1.symm
    · cases (Prod.mk.inj h).2

theorem deleteObject_failed {id : String} (h : deleteObject c g id = (t, .error e)) : t = g := by
  unfold deleteObject at h
  cases hplan : planDelete c g id with
  | error =>
    rw [hplan] at h
    exact (Prod.mk.inj h).1.symm
  | ok =>
    simp only [hplan, upsertNodes_one] at h
    split_ifs at h
    · exact (Prod.mk.inj h).1.symm
    · cases (Prod.mk.inj h).2

end Calls

section IfAbsent

variable (instanceId : String → String → String)

/-- The id of the request's type and key. -/
def addressOf (c : CallContext) (r : CreateRequest) : Option String :=
  (c.model.toOption.bind fun o => o.resolveEntityId r.typeRef).map fun entityId =>
    instanceId (nodeTypeId entityId) (instanceKey r.scope r.key)

/-- `get_object` answers an object of the request's type and key. -/
def LiveAt (c : CallContext) (g : Graph) (r : CreateRequest) : Prop :=
  ∃ id ∈ addressOf instanceId c r, (g.getObject id).isSome = true

/-- The create succeeds exactly when there is no live object, and changes nothing else. -/
def Conditional (c : CallContext) (g : Graph) (r : CreateRequest) : Prop :=
  ((createObject instanceId c g r).2.isOk = true ↔ ¬ LiveAt instanceId c g r) ∧
    ((createObject instanceId c g r).2.isOk = false → (createObject instanceId c g r).1 = g)

/-- A live object is there; or the request passes every check, and not even a deleted
object is there. -/
def LiveOrFree (c : CallContext) (g : Graph) (r : CreateRequest) : Prop :=
  LiveAt instanceId c g r ∨ (planCreate instanceId c r).isOk = true ∧
      ∀ id ∈ addressOf instanceId c r, id ∉ g.nodes.keys

def EveryFirst (P : CallContext → Graph → CreateRequest → Prop) (g : Graph)
    (calls : List Call) : Prop :=
  ∀ before c r after, calls = before ++ .create c r :: after → r.ifAbsent = true →
    P c (before.foldl (Call.apply instanceId) g) r

variable {instanceId} {c : CallContext} {g : Graph} {r : CreateRequest} {plan : PlannedWrite}

theorem planCreate_ok (h : planCreate instanceId c r = .ok plan) :
    addressOf instanceId c r = some plan.node.nodeKey ∧
      plan.node.expectedVersion = if r.ifAbsent then some 0 else none := by
  unfold planCreate at h
  obtain ⟨o, hmodel, h⟩ := Rust.bind_eq_ok_iff.mp h
  cases hentity : o.resolveEntityId r.typeRef with
  | none =>
    rw [hentity] at h
    cases h
  | some =>
    simp only [hentity] at h
    split at h
    · cases h
    · split at h
      · cases h
      · obtain ⟨write, _, h⟩ := Rust.bind_eq_ok_iff.mp h
        split at h
        · cases h
        · obtain ⟨_, _, h⟩ := Rust.bind_eq_ok_iff.mp h
          cases h
          refine ⟨?_, rfl⟩
          simp [addressOf, hmodel, Except.toOption, hentity]

theorem conditional_iff (hfirst : r.ifAbsent = true) :
    Conditional instanceId c g r ↔ LiveOrFree instanceId c g r := by
  have hkeys : ∀ id, (g.getObject id).isSome = true → id ∈ g.nodes.keys := by
    intro id hlive
    rw [InsertionMap.mem_keys_iff]
    obtain ⟨n, hn⟩ := Option.isSome_iff_exists.mp hlive
    exact ⟨n, (Option.filter_eq_some_iff.mp hn).1⟩
  have hunchanged : (createObject instanceId c g r).2.isOk = false →
      (createObject instanceId c g r).1 = g := by
    intro hfailed
    cases hcall : createObject instanceId c g r with
    | mk _ answer =>
      cases answer with
      | error => exact createObject_failed hcall
      | ok =>
        rw [hcall] at hfailed
        cases hfailed
  have hok : (createObject instanceId c g r).2.isOk = true ↔
      (planCreate instanceId c r).isOk = true ∧
        ∀ id ∈ addressOf instanceId c r, id ∉ g.nodes.keys := by
    unfold createObject
    cases hplan : planCreate instanceId c r with
    | error => simp [Except.isOk, Except.toBool]
    | ok plan =>
      obtain ⟨haddress, hversion⟩ := planCreate_ok hplan
      rw [hfirst, if_pos rfl] at hversion
      by_cases hmem : plan.node.nodeKey ∈ g.nodes.keys
      · simp [upsertNodes_one, hversion, hmem, haddress, Except.isOk, Except.toBool]
      · simp [upsertNodes_one, hmem, haddress, Except.isOk, Except.toBool]
  unfold Conditional LiveOrFree
  rw [hok]
  constructor
  · rintro ⟨hiff, -⟩
    by_cases hlive : LiveAt instanceId c g r
    · exact .inl hlive
    · exact .inr (hiff.mpr hlive)
  · intro h
    refine ⟨⟨?_, fun hlive => h.resolve_left hlive⟩, hunchanged⟩
    rintro ⟨-, hfree⟩ ⟨id, hid, hlive⟩
    exact hfree id hid (hkeys id hlive)

private def teamCaller : CallContext :=
  ⟨.ok ⟨[], [.obj [("id", .str "team")]]⟩, fun _ => .ok ⟨fun _ => true, fun _ => true⟩, .ok (), ""⟩

private def createTeam (ifAbsent : Bool) : CreateRequest :=
  ⟨"team", "x", none, ifAbsent, .off, .obj []⟩

private def createDelete : List Call :=
  [.create teamCaller (createTeam false), .delete teamCaller "gts.cf.studio.domain.team.v1~|x"]

end IfAbsent

end DomainModel
end StudioWeb
