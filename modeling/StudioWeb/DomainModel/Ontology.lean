import StudioWeb.Library.JsonObject
import StudioWeb.Library.RustPrelude

/-!
# The ontology document and its edits

`Ontology` of `ontology.rs`: a document with an `entities` array, kept apart here
as the entities and the rest of its fields, and the edits that the service makes
to it.  Studio's own model, which the crate embeds, is the argument `studio`
where an edit reads it.
-/

namespace StudioWeb
namespace DomainModel

open JsonText Json

/-- The document: its `entities` and its other top-level fields. -/
structure Ontology where
  head : List (String × Json)
  entities : List Json
deriving DecidableEq

/-- Why an ontology edit was refused. -/
inductive OntologyError where
  | unknownEntity (id : String)
  | duplicateEntity (id : String)
  | invalidEntityId (id : String)
  | duplicateField (name : String)
  | unknownField (name : String)
  | alreadyApplied
  | inheritedField (name declaredBy : String)
  | relationProperty (name : String)
  | studioTab (name : String)
  | heldField (name gear : String)
  | malformed
deriving DecidableEq

def OntologyError.display : OntologyError → String
  | .unknownEntity id => s!"unknown domain entity: {id}"
  | .duplicateEntity id => s!"the model already has a type `{id}`"
  | .invalidEntityId id =>
    s!"`{id}` is not a type id: lower-case words joined by hyphens, " ++ "starting with a letter"
  | .duplicateField name => s!"field already exists: {name}"
  | .unknownField name => s!"no such field: {name}"
  | .alreadyApplied => "the edit is already in the model"
  | .inheritedField name declaredBy =>
    s!"`{name}` is declared by `{declaredBy}`, not by this type — edit it there, " ++
      "which changes it for everything that extends it"
  | .relationProperty name =>
    s!"`{name}` is a relation, not a payload field: it is stored as a `declares` " ++
      "edge in the model graph, and removing that edge is not implemented here"
  | .studioTab name =>
    s!"`{name}` is one of Studio's own tabs: turn it off in the level's tabs " ++
      "instead, since Studio would add it back"
  | .heldField name gear =>
    s!"`{name}` is written by {gear}: add a field beside it instead of changing it"
  | .malformed => "ontology document is malformed"

abbrev Edited (α : Type) := Except OntologyError α

structure FieldSpec where
  name : String
  typeName : String
  description : Option String
  required : Bool

structure FieldEdit where
  renameTo : Option String
  typeName : Option String
  required : Option Bool
  description : Option String

def FieldEdit.isEmpty (edit : FieldEdit) : Bool :=
  edit.renameTo.isNone && edit.typeName.isNone && edit.required.isNone && edit.description.isNone

structure EntitySpec where
  id : String
  name : String
  description : Option String
  bucket : Option String
  «extends» : Option String
  origin : Option String

/-- One field before and after an edit; a dropped field has no `after`. -/
structure FieldChange where
  index : Nat
  before : Json
  after : Option Json
  entity : Json

structure EffectiveProperty where
  name : String
  typeExpr : String
  required : Bool
  description : String
  declaredBy : String

def sanitizeLeaf (raw : List Char) : List Char :=
  raw.map fun c => if c = '-' ∨ c = '.' ∨ c = ' ' then '_' else c

def nodeTypeId (entityId : String) : String :=
  "gts.cf.studio.domain." ++ String.ofList (sanitizeLeaf entityId.toList) ++ ".v1~"

/-- The token before the version, or the whole reference. -/
def typeLeaf (typeId : String) : String :=
  let trimmed := (typeId.toList.reverse.dropWhile (fun c => c = '~')).reverse
  let tokens := trimmed.splitOn '.'
  if 2 ≤ tokens.length then
    String.ofList ((tokens[tokens.length - 2]?).getD [])
  else
    typeId

section Access

def idOf (e : Json) : Option String := e.getStr? "id"

def nameOf (p : Json) : Option String := p.getStr? "name"

/-- The `properties` array of an entity. -/
def properties (e : Json) : Option (List Json) := (e.get? "properties").bind arr?

def setProperties (e : Json) (props : List Json) : Json := e.setField "properties" (.arr props)

/-- A relation is an edge of the graph, not a field of a payload. -/
def isRelationProperty (p : Json) : Bool :=
  p.getStr? "extends" == some "edge" || p.getStr? "extends" == some "link"

/-- `value.pointer("/meta/<key>")`. -/
def metaField (e : Json) (key : String) : Option Json := (e.get? "meta").bind fun m => m.get? key

/-- `meta[key] = value`, where `meta` becomes an object if it is none. -/
def setMeta (e : Json) (key : String) (value : Json) : Json :=
  let m := (e.get? "meta").getD (.obj [])
  let m := if m.isObject then m else .obj []
  e.setField "meta" (m.setField key value)

variable (o : Ontology)

namespace Ontology

def entity (id : String) : Option Json := o.entities.find? (fun e => idOf e = some id)

def entityIndex (id : String) : Option Nat := o.entities.findIdx? (fun e => idOf e = some id)

def entityIds : List String := o.entities.filterMap idOf

def hasEntity (id : String) : Bool := (o.entity id).isSome

def resolveEntityId (reference : String) : Option String :=
  let reference := String.ofList (Rust.trim reference.toList)
  if reference = "" then
    none
  else if o.hasEntity reference then
    some reference
  else
    o.entityIds.find? fun id =>
      typeLeaf (nodeTypeId id) = typeLeaf reference ∨ typeLeaf (nodeTypeId id) = reference

/-- The walk of `ancestors` from its last step on.  Every step adds an id of the
document that the chain does not have, so as many steps as there are entities are
enough. -/
def ancestorsFrom : Nat → String → List String → List String
  | 0, _, chain => chain
  | fuel + 1, «at», chain =>
    let base := (o.entity «at»).bind fun e =>
      ((e.getStr? "extends").filter (fun b => b ≠ "")).bind o.resolveEntityId
    match base with
    | none => chain
    | some base =>
      if base ∈ chain then chain else ancestorsFrom fuel base (chain ++ [base])

/-- An entity and every base it extends, nearest first. -/
def ancestors (id : String) : List String := o.ancestorsFrom (o.entities.length + 1) id [id]

def effectiveProperty (declaredBy : String) (p : Json) : Option EffectiveProperty :=
  if isRelationProperty p then
    none
  else
    (nameOf p).map fun name =>
      { name := name
        typeExpr := (p.getStr? "type").getD ""
        required := ((p.get? "required").bind bool?).getD false
        description := (p.getStr? "description").getD ""
        declaredBy := declaredBy }

/-- The nearer declaration takes the place of the farther one. -/
def overrideProperty (out : List EffectiveProperty) (p : EffectiveProperty) :
    List EffectiveProperty :=
  match out.findIdx? (fun q => q.name = p.name) with
  | some i => out.set i p
  | none => out ++ [p]

/-- Every payload field that a type has, its own and the inherited ones. -/
def effectiveProperties (id : String) : List EffectiveProperty :=
  (o.ancestors id).reverse.foldl (fun out ancestor =>
      (((o.entity ancestor).bind properties).getD []).filterMap
        (effectiveProperty ancestor) |>.foldl overrideProperty out)
    []

def ownProperty (id name : String) : Option Json :=
  ((o.entity id).bind properties).bind fun props =>
    props.find? (fun p => nameOf p = some name)

end Ontology

end Access

namespace Ontology

variable (o : Ontology)

def modifyEntity {α : Type} (id : String) (f : Json → Edited (Json × α)) : Edited (Ontology × α) :=
  match o.entityIndex id with
  | none => .error (.unknownEntity id)
  | some i =>
    match o.entities[i]? with
    | none => .error .malformed
    | some e =>
      match f e with
      | .error error => .error error
      | .ok (e, a) => .ok ({ o with entities := o.entities.set i e }, a)

/-- The property that `add_field` appends. -/
def FieldSpec.property (field : FieldSpec) : Json :=
  object [("name", .str field.name), ("type", .str field.typeName),
      ("description", .str (field.description.getD "")),
      ("required", .bool field.required), ("relationLabel", .str "")]

def addField (id : String) (field : FieldSpec) : Edited (Ontology × Json) :=
  o.modifyEntity id fun e =>
    match properties e with
    | none => .error .malformed
    | some props =>
      if props.any (fun p => nameOf p = some field.name) then
        .error (.duplicateField field.name)
      else
        let e := setProperties e (props ++ [FieldSpec.property field])
        .ok (e, e)

/-- What an id of a new type may be. -/
def wellFormedId (id : String) : Bool :=
  let cs := id.toList
  cs.length ≤ 64 && cs.head?.any Char.isLower &&
    cs.all (fun c => c.isLower || c.isDigit || c = '-') && cs.getLast? != some '-'

def newBase (spec : EntitySpec) : Edited (Option String) :=
  match (spec.extends.map (fun b => String.ofList (Rust.trim b.toList))).filter
      (fun b => b ≠ "") with
  | none => .ok none
  | some base =>
    match o.resolveEntityId base with
    | none => .error (.unknownEntity base)
    | some id => .ok (some id)

/-- The document of a new type. -/
def newEntity (spec : EntitySpec) (id : String) (base : Option String) : Json :=
  let bucket := ((spec.bucket.filter (fun b => Rust.trim b.toList ≠ [])).or
    ((base.bind o.entity).bind (fun e => e.getStr? "bucket"))).getD "planning"
  let name := Rust.trim spec.name.toList
  object [("id", .str id), ("layer", .str "product"),
      ("extends", (base.map Json.str).getD .null), ("abstract", .bool false),
      ("bucket", .str bucket), ("name", .str (if name = [] then id else String.ofList name)),
      ("kind", .str "entity"), ("description", .str (spec.description.getD "")),
      ("meta", .obj (match spec.origin with
        | none => []
        | some origin => [("origin", .str origin)])),
      ("properties", .arr []), ("methods", .arr []), ("examples", .arr [])]

def addEntity (spec : EntitySpec) : Edited (Ontology × Json) :=
  let id := String.ofList (Rust.trim spec.id.toList)
  if wellFormedId id = false then
    .error (.invalidEntityId id)
  else if o.hasEntity id then
    .error (.duplicateEntity id)
  else
    match o.newBase spec with
    | .error error => .error error
    | .ok base =>
      let entity := o.newEntity spec id base
      .ok ({ o with entities := o.entities ++ [entity] }, entity)

def refuseHeldField (id name : String) : Edited Unit :=
  match (o.ownProperty id name).bind (fun p => p.getStr? "held_by") with
  | some gear => .error (.heldField name gear)
  | none => .ok ()

/-- A rename that has landed, or one onto a name that is taken. -/
def refuseRename (id name : String) (edit : FieldEdit) : Edited Unit :=
  match edit.renameTo with
  | none => .ok ()
  | some newName =>
    if newName = name then
      .ok ()
    else
      match (o.ownProperty id name).isSome, (o.ownProperty id newName).isSome with
      | false, true => .error .alreadyApplied
      | true, true => .error (.duplicateField newName)
      | _, _ => .ok ()

def ownPropertyIndex (id name : String) : Edited Nat :=
  match o.entity id with
  | none => .error (.unknownEntity id)
  | some e =>
    match properties e with
    | none => .error .malformed
    | some props =>
      match props.findIdx? (fun p => nameOf p = some name) with
      | none =>
        match (o.effectiveProperties id).find? (fun p => p.name = name) with
        | some inherited => .error (.inheritedField name inherited.declaredBy)
        | none => .error (.unknownField name)
      | some index =>
        if (props[index]?).any isRelationProperty then
          .error (.relationProperty name)
        else
          .ok index

def FieldEdit.apply (edit : FieldEdit) (p : Json) : Json :=
  let p := match edit.renameTo with
    | none => p
    | some name => p.setField "name" (.str name)
  let p := match edit.typeName with
    | none => p
    | some typeName => p.setField "type" (.str typeName)
  let p := match edit.required with
    | none => p
    | some required => p.setField "required" (.bool required)
  match edit.description with
  | none => p
  | some description => p.setField "description" (.str description)

def replaceProperty (index : Nat) (f : Json → Json) (e : Json) : Edited (Json × FieldChange) :=
  match properties e with
  | none => .error .malformed
  | some props =>
    match props[index]? with
    | none => .error .malformed
    | some before =>
      if before.isObject then
        let e := setProperties e (props.set index (f before))
        .ok (e, ⟨index, before, some (f before), e⟩)
      else
        .error .malformed

def editField (id name : String) (edit : FieldEdit) : Edited (Ontology × FieldChange) :=
  match o.refuseHeldField id name with
  | .error error => .error error
  | .ok () =>
    match o.refuseRename id name edit with
    | .error error => .error error
    | .ok () =>
      match o.ownPropertyIndex id name with
      | .error error => .error error
      | .ok index => o.modifyEntity id (replaceProperty index (FieldEdit.apply edit))

/-- Where a tab that the level declares itself sits. -/
def ownTabIndex (studio : Ontology) (level name : String) : Edited (Option Nat) :=
  match ((o.entity level).bind properties).bind (fun props => props.findIdx? fun p =>
      nameOf p = some name ∧ p.getStr? "relationType" = some "shows") with
  | none => .ok none
  | some index =>
    if studio.entities.any (fun e => idOf e = some level ∧
        ((properties e).getD []).any (fun p => nameOf p = some name)) then
      .error (.studioTab name)
    else
      .ok (some index)

def dropProperty (index : Nat) (e : Json) : Edited (Json × FieldChange) :=
  match properties e with
  | none => .error .malformed
  | some props =>
    match props[index]? with
    | none => .error .malformed
    | some before =>
      let e := setProperties e (props.eraseIdx index)
      .ok (e, ⟨index, before, none, e⟩)

def removeField (studio : Ontology) (id name : String) : Edited (Ontology × FieldChange) :=
  match o.refuseHeldField id name with
  | .error error => .error error
  | .ok () =>
    match o.ownTabIndex studio id name with
    | .error error => .error error
    | .ok (some index) => o.modifyEntity id (dropProperty index)
    | .ok none =>
      match o.ownPropertyIndex id name with
      | .error error => .error error
      | .ok index => o.modifyEntity id (dropProperty index)

def relationProperty (name targetName target verb : String) : Json :=
  object [("name", .str name), ("type", .str targetName), ("description", .str ""),
      ("required", .bool false), ("extends", .str "edge"), ("relation", .str target),
      ("relationType", .str verb),
      ("relationLabel", .str (String.ofList (name.toList.map fun c => if c = '_' then ' ' else c)))]

def addRelation (id name target verb : String) : Edited (Ontology × Bool) :=
  let targetName := ((o.entity target).bind (fun e => e.getStr? "name")).getD target
  o.modifyEntity id fun e =>
    match properties e with
    | none => .error .malformed
    | some props =>
      if props.any (fun p => nameOf p = some name) then
        .ok (e, false)
      else
        .ok (setProperties e (props ++ [relationProperty name targetName target verb]), true)

/-- Mark the fields that a gear writes. -/
def holdProperties (gear : String) (fields : List String) (props : List Json) : List Json :=
  props.map fun p =>
    if (nameOf p).any (fun n => n ∈ fields) ∧ p.getStr? "held_by" ≠ some gear then
      p.setField "held_by" (.str gear)
    else
      p

/-- `hold`: whether anything changed. -/
def hold (id gear : String) (fields : List String) : Edited (Ontology × Bool) :=
  o.modifyEntity id fun e =>
    let held := match properties e with
      | none => e
      | some props =>
        if holdProperties gear fields props = props then
          e
        else
          setProperties e (holdProperties gear fields props)
    if (metaField held "held_by").bind str? = some gear then
      .ok (held, decide (held ≠ e))
    else if held.isObject then
      .ok (setMeta held "held_by" (.str gear), true)
    else
      .error .malformed

/-- `set_searchable`: whether anything changed. -/
def setSearchable (id : String) (searchable : Bool) : Edited (Ontology × Bool) :=
  o.modifyEntity id fun e =>
    if (metaField e "searchable").bind bool? = some searchable then
      .ok (e, false)
    else if e.isObject then
      .ok (setMeta e "searchable" (.bool searchable), true)
    else
      .error .malformed

end Ontology

section Changes

/-- An edit of the one type `id`. -/
def Changes (o next : Ontology) (id : String) : Prop :=
  ∃ i e e', o.entityIndex id = some i ∧ o.entities[i]? = some e ∧ idOf e' = idOf e ∧
    next = { o with entities := o.entities.set i e' }

variable {o next : Ontology} {id : String}

theorem idOf_setProperties (e : Json) (props : List Json) : idOf (setProperties e props) = idOf e :=
  getStr?_setField_ne _ (by decide)

theorem idOf_setMeta (e : Json) (key : String) (value : Json) :
    idOf (setMeta e key value) = idOf e :=
  getStr?_setField_ne _ (by decide)

theorem modifyEntity_eq_ok {α : Type} {f : Json → Edited (Json × α)} {a : α}
    (h : o.modifyEntity id f = .ok (next, a)) :
    ∃ i e e', o.entityIndex id = some i ∧ o.entities[i]? = some e ∧
      f e = .ok (e', a) ∧ next = { o with entities := o.entities.set i e' } := by
  unfold Ontology.modifyEntity at h
  split at h
  · cases h
  · next i hi =>
    split at h
    · cases h
    · next e he =>
      split at h
      · cases h
      · next e' _ hf =>
        cases h
        exact ⟨i, e, e', hi, he, hf, rfl⟩

theorem changes_of_modifyEntity {α : Type} {f : Json → Edited (Json × α)} {a : α}
    (h : o.modifyEntity id f = .ok (next, a))
    (hf : ∀ e e' a, f e = .ok (e', a) → idOf e' = idOf e) : Changes o next id := by
  obtain ⟨i, e, e', hi, he, hfe, rfl⟩ := modifyEntity_eq_ok h
  exact ⟨i, e, e', hi, he, hf e e' a hfe, rfl⟩

theorem addField_changes {field : FieldSpec} {entity : Json}
    (h : o.addField id field = .ok (next, entity)) : Changes o next id := by
  refine changes_of_modifyEntity h ?_
  intro e e' a hf
  split at hf
  · cases hf
  · split_ifs at hf
    cases hf
    exact idOf_setProperties _ _

variable {change : FieldChange}

theorem idOf_replaceProperty {index : Nat} {f : Json → Json} {e e' : Json}
    (h : Ontology.replaceProperty index f e = .ok (e', change)) : idOf e' = idOf e := by
  unfold Ontology.replaceProperty at h
  split at h
  · cases h
  · split at h
    · cases h
    · split_ifs at h
      cases h
      exact idOf_setProperties _ _

theorem idOf_dropProperty {index : Nat} {e e' : Json}
    (h : Ontology.dropProperty index e = .ok (e', change)) : idOf e' = idOf e := by
  unfold Ontology.dropProperty at h
  split at h
  · cases h
  · split at h
    · cases h
    · cases h
      exact idOf_setProperties _ _

theorem editField_eq_ok {name : String} {edit : FieldEdit}
    (h : o.editField id name edit = .ok (next, change)) :
    ∃ index, o.modifyEntity id
      (Ontology.replaceProperty index (Ontology.FieldEdit.apply edit)) = .ok (next, change) := by
  unfold Ontology.editField at h
  split at h
  · cases h
  · split at h
    · cases h
    · split at h
      · cases h
      · next index _ => exact ⟨index, h⟩

theorem removeField_eq_ok {studio : Ontology} {name : String}
    (h : o.removeField studio id name = .ok (next, change)) :
    ∃ index, o.modifyEntity id (Ontology.dropProperty index) = .ok (next, change) := by
  unfold Ontology.removeField at h
  split at h
  · cases h
  · split at h
    · cases h
    · next index _ => exact ⟨index, h⟩
    · split at h
      · cases h
      · next index _ => exact ⟨index, h⟩

theorem addRelation_changes {name target verb : String} {added : Bool}
    (h : o.addRelation id name target verb = .ok (next, added)) : Changes o next id := by
  refine changes_of_modifyEntity h ?_
  intro e e' a hf
  split at hf
  · cases hf
  · split_ifs at hf <;> cases hf
    · rfl
    · exact idOf_setProperties _ _

theorem hold_changes {gear : String} {fields : List String} {changed : Bool}
    (h : o.hold id gear fields = .ok (next, changed)) : Changes o next id := by
  refine changes_of_modifyEntity h ?_
  intro e e' a hf
  dsimp only at hf
  have hheld : ∀ held, held = (match properties e with
      | none => e
      | some props =>
        if Ontology.holdProperties gear fields props = props then
          e
        else
          setProperties e (Ontology.holdProperties gear fields props)) → idOf held = idOf e := by
    rintro held rfl
    split
    · rfl
    · split_ifs
      · rfl
      · exact idOf_setProperties _ _
  split_ifs at hf <;> cases hf
  · exact hheld _ rfl
  · rw [idOf_setMeta]
    exact hheld _ rfl

theorem setSearchable_changes {searchable changed : Bool}
    (h : o.setSearchable id searchable = .ok (next, changed)) : Changes o next id := by
  refine changes_of_modifyEntity h ?_
  intro e e' a hf
  split_ifs at hf <;> cases hf
  · rfl
  · exact idOf_setMeta _ _ _

end Changes

end DomainModel
end StudioWeb
