import StudioWeb.DomainModel.ModelEdits

/-!
# Studio's own types and what gears hold

The two edits of `ontology.rs` that go over the whole document: `add_studio_types`
gives a stored model what Studio's screens read, and `keep_held_from` puts back
what gears write, whatever a revert undoes.  `EditRequest` names every edit that the
claims of versions below are about.
-/

namespace StudioWeb
namespace DomainModel

open JsonText Json

namespace Ontology

/-- A field of the document other than `entities`. -/
def headField (o : Ontology) (key : String) : Option Json := o.head.lookup key

def setHeadField (o : Ontology) (key : String) (value : Json) : Ontology :=
  { o with head := insertField key value o.head }

end Ontology

/-- The buckets of a document, when it has an array of them. -/
def buckets (o : Ontology) : Option (List Json) := (o.headField "buckets").bind arr?

def entityOrder (bucket : Json) : Option (List Json) := (bucket.get? "entity_order").bind arr?

/-- `adopt_bucket`: take a bucket over from Studio's model. -/
def adoptBucket (studio : Ontology) (id : String) (o : Ontology) : Ontology :=
  if ((buckets o).getD []).any (fun b => b.getStr? "id" = some id) then
    o
  else
    match ((buckets studio).getD []).find? (fun b => b.getStr? "id" = some id) with
    | none => o
    | some bucket =>
      let bucket := bucket.setField "entity_order" (.arr [])
      match buckets o with
      | some bs => o.setHeadField "buckets" (.arr (bs ++ [bucket]))
      | none => o.setHeadField "buckets" (.arr [bucket])

/-- `studio_predecessor`: the type before this one in its bucket. -/
def studioPredecessor (studio : Ontology) (id : String) : Option String :=
  ((buckets studio).getD []).findSome? fun b =>
    (entityOrder b).bind fun order =>
      (order.findIdx? (fun v => v.str? = some id)).bind fun «at» =>
        if «at» = 0 then none else (order[«at» - 1]?).bind str?

/-- The order of the first bucket with the id of the type's bucket, with the type
after its predecessor. -/
def insertInOrder (bucket : Option String) (after : Option String) (id : String)
    (o : Ontology) : Ontology :=
  match buckets o with
  | none => o
  | some bs =>
    match bs.findIdx? (fun b => b.getStr? "id" = bucket) with
    | none => o
    | some i =>
      match (bs[i]?).bind fun b => (entityOrder b).map fun order => (b, order) with
      | none => o
      | some (b, order) =>
        let «at» := ((after.bind fun a =>
          order.findIdx? (fun v => v.str? = some a)).map (· + 1)).getD order.length
        let b := b.setField "entity_order" (.arr (order.insertIdx «at» (.str id)))
        o.setHeadField "buckets" (.arr (bs.set i b))

/-- The base of Studio's type, for one that has none. -/
def adoptBase (entity mine : Json) : Json × Bool :=
  match entity.getStr? "extends" with
  | none => (mine, false)
  | some base =>
    if (mine.getStr? "extends").all (fun b => b = "") then
      (mine.setField "extends" (.str base), true)
    else
      (mine, false)

def growProperties (theirs props : List Json) : List Json :=
  theirs.foldl (fun props p =>
      if props.any (fun q => nameOf q = some ((nameOf p).getD "")) then
        props
      else
        props ++ [p])
    props

/-- The properties of Studio's type that this one lacks. -/
def adoptProperties (entity mine : Json) : Json × Bool :=
  let theirs := (properties entity).getD []
  match properties mine with
  | none =>
    let grown := growProperties theirs []
    (setProperties mine grown, decide (0 < grown.length))
  | some props =>
    let grown := growProperties theirs props
    if props.length < grown.length then
      (setProperties mine grown, true)
    else
      (mine, false)

def addStudioType (studio : Ontology) (result : Ontology × List String) (entity : Json) :
    Ontology × List String :=
  match idOf entity with
  | none => result
  | some id =>
    let o := result.1
    let added := result.2
    match o.entityIndex id with
    | some i =>
      let mine := (o.entities[i]?).getD .null
      let based := adoptBase entity mine
      let added := if based.2 then added ++ [id] else added
      let grown := adoptProperties entity based.1
      ({ o with entities := o.entities.set i grown.1 },
        if grown.2 ∧ id ∉ added then added ++ [id] else added)
    | none =>
      let bucket := entity.getStr? "bucket"
      let o := match bucket with
        | none => o
        | some b => adoptBucket studio b o
      let o := { o with entities := o.entities ++ [entity] }
      (insertInOrder bucket (studioPredecessor studio id) id o, added ++ [id])

/-- `add_studio_types`: the document and the ids touched. -/
def addStudioTypes (studio o : Ontology) : Ontology × List String :=
  studio.entities.foldl (addStudioType studio) (o, [])

/-- The edit of `ensure_studio_types`. -/
def studioTypesEdit (studio : Ontology) : ModelEdit :=
  editEntities "studio-types" "take in Studio's own types"
    fun o => .ok (addStudioTypes studio o)

def keepHeldProperty (id : String) (result : List Json × List String) (p : Json) :
    List Json × List String :=
  let name := (nameOf p).getD ""
  match result.1.findIdx? (fun q => nameOf q = some name) with
  | some i =>
    if result.1[i]? = some p then
      result
    else
      (result.1.set i p, result.2 ++ [s!"{id}.{name}"])
  | none => (result.1 ++ [p], result.2 ++ [s!"{id}.{name}"])

/-- The hold on the type itself. -/
def keepHeldMark (id : String) (held mine : Json) (kept : List String) : Json × List String :=
  if (metaField mine "held_by").isNone then
    let gear := (metaField held "held_by").getD .null
    (if mine.isObject then setMeta mine "held_by" gear else mine, kept ++ [id])
  else
    (mine, kept)

/-- The held fields of the type. -/
def keepHeldProperties (id : String) (held mine : Json) (kept : List String) : Json × List String :=
  match properties mine with
  | none => (mine, kept)
  | some props =>
    let heldProps := ((properties held).getD []).filter fun p => (p.get? "held_by").isSome
    let result := heldProps.foldl (keepHeldProperty id) (props, kept)
    (setProperties mine result.1, result.2)

/-- Put one held type back. -/
def keepHeldEntity (result : Ontology × List String) (held : Json) : Ontology × List String :=
  match idOf held with
  | none => result
  | some id =>
    match result.1.entityIndex id with
    | none =>
      ({ result.1 with entities := result.1.entities ++ [held] }, result.2 ++ [id])
    | some i =>
      let mine := (result.1.entities[i]?).getD .null
      let marked := keepHeldMark id held mine result.2
      let kept := keepHeldProperties id held marked.1 marked.2
      ({ result.1 with entities := result.1.entities.set i kept.1 }, kept.2)

/-- `keep_held_from`: the document with what `current` holds, and what was put
back. -/
def keepHeldFrom (o current : Ontology) : Ontology × List String :=
  (current.entities.filter fun e => (metaField e "held_by").isSome).foldl keepHeldEntity (o, [])

/-- The edits of a model that record an inverse. -/
inductive EditRequest where
  | addField (entityRef : String) (field : FieldSpec)
  | addType (spec : EntitySpec)
  | editField (entityRef name : String) (edit : FieldEdit)
  | removeField (entityRef name : String)
  | takeIn (request : TakeIn)
  | studioTypes

/-- What the service computes for a request. -/
def EditRequest.edit (studio : Ontology) : EditRequest → ModelEdit
  | .addField entityRef field => addFieldEdit entityRef field
  | .addType spec => addTypeEdit spec
  | .editField entityRef name edit => editFieldEdit entityRef name edit
  | .removeField entityRef name => removeFieldEdit studio entityRef name
  | .takeIn request => takeInEdit request
  | .studioTypes => studioTypesEdit studio

/-- The types that an edit names are in the changed document. -/
theorem EditRequest.touched_isSome {studio o : Ontology} {request : EditRequest} {c : Change}
    (h : request.edit studio o = .ok (some c)) : ∀ id ∈ c.touched, (c.next.entity id).isSome := by
  cases request <;> simp only [EditRequest.edit] at h
  case addField => exact (addFieldEdit_frames h).touched
  case addType => exact (addTypeEdit_frames h).touched
  case editField => exact (editFieldEdit_frames h).touched
  case removeField => exact (removeFieldEdit_frames h).touched
  case takeIn => exact (takeInEdit_frames h).touched
  case studioTypes =>
    intro id hid
    obtain ⟨_, hpatches⟩ := editEntities_eq_ok h
    obtain ⟨i, hi⟩ := entityPatches_index hpatches id hid
    exact entity_isSome_of_entityIndex hi

end DomainModel
end StudioWeb
