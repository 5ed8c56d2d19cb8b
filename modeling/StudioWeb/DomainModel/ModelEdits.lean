import StudioWeb.DomainModel.Ontology
import Mathlib.Logic.Relation

/-!
# Edits of the model with their patches

What an edit of the service computes before it claims a version: the changed
document, the types it changed, and the two patches that the revision records.
A patch is a list of the operations that the service writes, on the paths it
writes; applying one fails where the path does not exist.

**Results.** `Change.Frames`.
* `addFieldEdit_frames`, `addTypeEdit_frames`, `applyToType_frames`,
  `takeInEdit_frames`: every edit does.
* `Change.KeepsIds`: a change keeps the ids of the types in their order, or appends
  a type with a new one.
-/

namespace StudioWeb
namespace DomainModel

open JsonText Json List

/-- One operation of a patch. The `add` operations without an index append. -/
inductive PatchOp where
  | replaceEntity (index : Nat) (value : Json)
  | addEntity (value : Json)
  | removeEntity (index : Nat)
  | addProperty (entity : Nat) (value : Json)
  | insertProperty (entity index : Nat) (value : Json)
  | replaceProperty (entity index : Nat) (value : Json)
  | removeProperty (entity index : Nat)
deriving DecidableEq

def onProperties (o : Ontology) (entity : Nat) (f : List Json → Option (List Json)) :
    Option Ontology :=
  (o.entities[entity]?).bind fun e =>
    (properties e).bind fun props =>
      (f props).map fun props =>
        { o with entities := o.entities.set entity (setProperties e props) }

def PatchOp.apply (op : PatchOp) (o : Ontology) : Option Ontology :=
  match op with
  | .replaceEntity i value =>
    if i < o.entities.length then
      some { o with entities := o.entities.set i value }
    else
      none
  | .addEntity value => some { o with entities := o.entities ++ [value] }
  | .removeEntity i =>
    if i < o.entities.length then
      some { o with entities := o.entities.eraseIdx i }
    else
      none
  | .addProperty e value => onProperties o e fun props => some (props ++ [value])
  | .insertProperty e i value =>
    onProperties o e fun props =>
      if i ≤ props.length then some (props.insertIdx i value) else none
  | .replaceProperty e i value =>
    onProperties o e fun props =>
      if i < props.length then some (props.set i value) else none
  | .removeProperty e i =>
    onProperties o e fun props =>
      if i < props.length then some (props.eraseIdx i) else none

/-- `json_patch::patch`. -/
def applyPatch (patch : List PatchOp) (o : Ontology) : Option Ontology :=
  patch.foldlM (fun o op => op.apply o) o

/-- What an edit computed. -/
structure Change where
  next : Ontology
  touched : List String
  op : String
  target : String
  summary : String
  patch : List PatchOp
  undo : List PatchOp

abbrev ModelEdit := Ontology → Except String (Option Change)

def unknownType {α : Type} (reference : String) : Except String α :=
  .error s!"unknown domain type: {reference}"

/-- `add_field`. -/
def addFieldEdit (entityRef : String) (field : FieldSpec) : ModelEdit := fun current =>
  match current.resolveEntityId entityRef with
  | none => unknownType entityRef
  | some id =>
    match current.addField id field with
    | .error error => .error error.display
    | .ok (next, entity) =>
      match next.entityIndex id with
      | none => unknownType entityRef
      | some index =>
        let props := (properties entity).getD []
        .ok <| some
          { next := next
            touched := [id]
            op := "add_field"
            target := id
            summary := s!"add field {id}.{field.name} : {field.typeName}"
            patch := [.addProperty index ((props[props.length - 1]?).getD .null)]
            undo := [.removeProperty index (props.length - 1)] }

/-- `add_type`. -/
def addTypeEdit (spec : EntitySpec) : ModelEdit := fun current =>
  match current.addEntity spec with
  | .error error => .error error.display
  | .ok (next, entity) =>
    let id := (idOf entity).getD ""
    match next.entityIndex id with
    | none => unknownType id
    | some index =>
      .ok <| some
        { next := next
          touched := [id]
          op := "add_type"
          target := id
          summary := s!"add type {id}"
          patch := [.addEntity entity]
          undo := [.removeEntity index] }

/-- The shared body of the edits of a field. -/
def applyToType (change : Ontology → String → Edited (Ontology × FieldChange))
    (op summary entityRef : String) : ModelEdit := fun current =>
  match current.resolveEntityId entityRef with
  | none => unknownType entityRef
  | some id =>
    match change current id with
    | .error .alreadyApplied => .ok none
    | .error error => .error error.display
    | .ok (next, changed) =>
      match next.entityIndex id with
      | none => unknownType entityRef
      | some index =>
        let patches : List PatchOp × List PatchOp := match changed.after with
          | none =>
            ([.removeProperty index changed.index],
              [.insertProperty index changed.index changed.before])
          | some after =>
            ([.replaceProperty index changed.index after],
              [.replaceProperty index changed.index changed.before])
        .ok <| some
          { next := next
            touched := [id]
            op := op
            target := id
            summary := s!"{id}: {summary}"
            patch := patches.1
            undo := patches.2 }

def editFieldEdit (entityRef name : String) (edit : FieldEdit) : ModelEdit :=
  if edit.isEmpty then
    fun _ => .error "nothing to change"
  else
    applyToType (fun o id => o.editField id name edit) "edit_field" s!"edit field {name}" entityRef

def removeFieldEdit (studio : Ontology) (entityRef name : String) : ModelEdit :=
  applyToType (fun o id => o.removeField studio id name) "remove_field"
    s!"remove field {name}" entityRef

/-- The patches of an edit of several entities: each is written whole. -/
def entityPatches (current next : Ontology) :
    List String → Except String (List PatchOp × List PatchOp)
  | [] => .ok ([], [])
  | id :: rest =>
    match next.entityIndex id with
    | none => unknownType id
    | some index =>
      match entityPatches current next rest with
      | .error error => .error error
      | .ok (patch, undo) =>
        .ok (.replaceEntity index ((next.entity id).getD .null) :: patch,
            .replaceEntity index ((current.entity id).getD .null) :: undo)

/-- `edit_entities`: `edit` changes a copy and names the entities it changed. -/
def editEntities (op describe : String)
    (edit : Ontology → Edited (Ontology × List String)) : ModelEdit := fun current =>
  match edit current with
  | .error error => .error error.display
  | .ok (_, []) => .ok none
  | .ok (next, touched) =>
    match entityPatches current next touched with
    | .error error => .error error
    | .ok (patch, undo) =>
      .ok <| some
        { next := next
          touched := touched
          op := op
          target := ",".intercalate touched
          summary := s!"{describe} " ++ ", ".intercalate touched
          patch := patch
          undo := undo }

/-- What a gear needs of one type. -/
structure TakeIn where
  entity : String
  fields : List FieldSpec
  relations : List (String × String × String)
  hold : Option (String × List String × Bool)

/-- The fields that the type lacks. -/
def takeFields (entity : String) (have_ : List String) :
    List FieldSpec → Ontology × Bool → Edited (Ontology × Bool)
  | [], result => .ok result
  | f :: rest, (next, changed) =>
    if have_.contains f.name then
      takeFields entity have_ rest (next, changed)
    else
      match next.addField entity f with
      | .error error => .error error
      | .ok (next, _) => takeFields entity have_ rest (next, true)

/-- The relations that the type does not declare yet. -/
def takeRelations (entity : String) :
    List (String × String × String) → Ontology × Bool → Edited (Ontology × Bool)
  | [], result => .ok result
  | (name, target, verb) :: rest, (next, changed) =>
    match next.addRelation entity name target verb with
    | .error error => .error error
    | .ok (next, added) => takeRelations entity rest (next, changed || added)

/-- The gear's hold on the type and on its fields. -/
def takeHold (entity : String) (hold : Option (String × List String × Bool))
    (result : Ontology × Bool) : Edited (Ontology × Bool) :=
  match hold with
  | none => .ok result
  | some (gear, names, searchable) =>
    match result.1.hold entity gear names with
    | .error error => .error error
    | .ok (next, held) =>
      match next.setSearchable entity searchable with
      | .error error => .error error
      | .ok (next, marked) => .ok (next, result.2 || held || marked)

/-- The edit of `take_in`. -/
def takeIn (request : TakeIn) (o : Ontology) : Edited (Ontology × List String) :=
  let have_ := (o.effectiveProperties request.entity).map fun p => p.name
  match takeFields request.entity have_ request.fields (o, false) with
  | .error error => .error error
  | .ok result =>
    match takeRelations request.entity request.relations result with
    | .error error => .error error
    | .ok result =>
      match takeHold request.entity request.hold result with
      | .error error => .error error
      | .ok (next, changed) => .ok (next, if changed then [request.entity] else [])

def takeInEdit (request : TakeIn) : ModelEdit := editEntities "take_in" "take in" (takeIn request)

section Frames

/-- The types that a change does not name are as they were, and no id is lost. -/
structure Change.Frames (o : Ontology) (c : Change) : Prop where
  entity : ∀ id, id ∉ c.touched → c.next.entity id = o.entity id
  touched : ∀ id ∈ c.touched, (c.next.entity id).isSome

/-- The same of two documents. -/
def SameBut (o next : Ontology) (id : String) : Prop :=
  (∀ other, other ≠ id → next.entity other = o.entity other) ∧
    ((o.entity id).isSome → (next.entity id).isSome)

theorem SameBut.refl (o : Ontology) (id : String) : SameBut o o id := ⟨fun _ _ => rfl, fun h => h⟩

variable {id : String} {i : Nat} {o : Ontology} {next : Ontology}

theorem SameBut.trans {o m next : Ontology}
    (h : SameBut o m id) (h' : SameBut m next id) : SameBut o next id :=
  ⟨fun other hne => (h'.1 other hne).trans (h.1 other hne), fun hsome => h'.2 (h.2 hsome)⟩

theorem find?_set {α : Type} {p : α → Bool} {xs : List α} {x y : α} (hi : xs[i]? = some x)
    (hx : p x = false) (hy : p y = false) : (xs.set i y).find? p = xs.find? p := by
  induction xs generalizing i with
  | nil => rfl
  | cons _ _ ih =>
    cases i with
    | zero =>
      cases hi
      simp [hx, hy]
    | succ =>
      rw [getElem?_cons_succ] at hi
      rw [set_cons_succ, find?_cons, find?_cons, ih hi]

theorem idOf_of_entityIndex {e : Json}
    (hi : o.entityIndex id = some i) (he : o.entities[i]? = some e) : idOf e = some id := by
  obtain ⟨hlt, hp, _⟩ := findIdx?_eq_some_iff_getElem.mp hi
  have heq : o.entities[i] = e := by
    rw [getElem?_eq_getElem hlt] at he
    exact Option.some.inj he
  rw [heq] at hp
  simpa using hp

theorem entity_isSome_iff :
    (o.entity id).isSome ↔ ∃ e ∈ o.entities, idOf e = some id := by
  simp [Ontology.entity, find?_isSome]

theorem sameBut_of_changes {o next : Ontology} (h : Changes o next id) :
    SameBut o next id := by
  obtain ⟨i, e, e', hi, he, hid, rfl⟩ := h
  have hid_e := idOf_of_entityIndex hi he
  constructor
  · intro other hne
    have hother : idOf e ≠ some other := by
      rw [hid_e]
      exact fun h => hne (Option.some.inj h).symm
    refine find?_set he ?_ ?_
    · simpa using hother
    · simpa [hid] using hother
  · intro _
    rw [entity_isSome_iff]
    have hlt : i < o.entities.length := (List.getElem?_eq_some_iff.mp he).1
    exact ⟨e', mem_set hlt e', hid.trans hid_e⟩

theorem entity_isSome_of_entityIndex (h : o.entityIndex id = some i) : (o.entity id).isSome := by
  obtain ⟨hlt, hp, _⟩ := findIdx?_eq_some_iff_getElem.mp h
  rw [entity_isSome_iff]
  exact ⟨o.entities[i], getElem_mem hlt, by simpa using hp⟩

theorem frames_of_sameBut {c : Change} (htouched : c.touched = [id]) (hsame : SameBut o c.next id)
    (hindex : c.next.entityIndex id = some i) : c.Frames o := by
  constructor
  · intro other hother
    rw [htouched, mem_singleton] at hother
    exact hsame.1 other hother
  · intro other hother
    rw [htouched, mem_singleton] at hother
    rw [hother]
    exact entity_isSome_of_entityIndex hindex

variable {o : Ontology} {c : Change}

theorem addFieldEdit_frames {entityRef : String} {field : FieldSpec}
    (h : addFieldEdit entityRef field o = .ok (some c)) : c.Frames o := by
  unfold addFieldEdit at h
  split at h
  · cases h
  · split at h
    · cases h
    · next next _ hadd =>
      split at h
      · cases h
      · next _ hindex =>
        cases h
        exact frames_of_sameBut rfl (sameBut_of_changes (addField_changes hadd)) hindex

theorem addEntity_eq_ok {spec : EntitySpec} {entity : Json}
    (h : o.addEntity spec = .ok (next, entity)) :
    (∃ base, entity = o.newEntity spec (String.ofList (Rust.trim spec.id.toList)) base ∧
      o.hasEntity (String.ofList (Rust.trim spec.id.toList)) = false) ∧
      next = { o with entities := o.entities ++ [entity] } := by
  simp only [Ontology.addEntity] at h
  split_ifs at h with hformed hhas
  split at h
  · cases h
  · next base _ =>
    cases h
    exact ⟨⟨base, rfl, by simpa using hhas⟩, rfl⟩

theorem sameBut_append (o : Ontology) (entity : Json) :
    SameBut o { o with entities := o.entities ++ [entity] } ((idOf entity).getD "") := by
  constructor
  · intro other hne
    have hnot : idOf entity ≠ some other := by
      intro hid
      rw [hid] at hne
      exact hne rfl
    simp [Ontology.entity, find?_append, hnot]
  · intro hsome
    rw [entity_isSome_iff] at hsome ⊢
    obtain ⟨e, he, hid⟩ := hsome
    exact ⟨e, mem_append_left _ he, hid⟩

theorem addTypeEdit_frames {spec : EntitySpec} (h : addTypeEdit spec o = .ok (some c)) :
    c.Frames o := by
  unfold addTypeEdit at h
  split at h
  · cases h
  · next next entity hadd =>
    dsimp only at h
    split at h
    · cases h
    · next _ hindex =>
      cases h
      obtain ⟨_, rfl⟩ := addEntity_eq_ok hadd
      exact frames_of_sameBut rfl (sameBut_append o entity) hindex

theorem applyToType_frames {change : Ontology → String → Edited (Ontology × FieldChange)}
    {op summary entityRef : String}
    (hchange : ∀ id next changed, change o id = .ok (next, changed) → Changes o next id)
    (h : applyToType change op summary entityRef o = .ok (some c)) : c.Frames o := by
  unfold applyToType at h
  split at h
  · cases h
  · next id _ =>
    split at h
    · cases h
    · cases h
    · next next changed hok =>
      split at h
      · cases h
      · next _ hindex =>
        cases h
        exact frames_of_sameBut rfl (sameBut_of_changes (hchange id next changed hok)) hindex

theorem editFieldEdit_frames {entityRef name : String} {edit : FieldEdit}
    (h : editFieldEdit entityRef name edit o = .ok (some c)) : c.Frames o := by
  unfold editFieldEdit at h
  split_ifs at h
  refine applyToType_frames ?_ h
  intro id next changed hok
  obtain ⟨index, hmodify⟩ := editField_eq_ok hok
  exact changes_of_modifyEntity hmodify (fun _ _ _ => idOf_replaceProperty)

theorem removeFieldEdit_frames {studio : Ontology} {entityRef name : String}
    (h : removeFieldEdit studio entityRef name o = .ok (some c)) : c.Frames o := by
  refine applyToType_frames ?_ h
  intro id next changed hok
  obtain ⟨index, hmodify⟩ := removeField_eq_ok hok
  exact changes_of_modifyEntity hmodify (fun _ _ _ => idOf_dropProperty)

/-- Edits of one type, one after the other. -/
def ChangesOften (id : String) : Ontology → Ontology → Prop :=
  Relation.ReflTransGen fun o next => Changes o next id

theorem takeFields_changes {entity : String} {have_ : List String} :
    ∀ {fields : List FieldSpec} {o next : Ontology} {changed changed' : Bool},
      takeFields entity have_ fields (o, changed) = .ok (next, changed') →
      ChangesOften entity o next
  | [], o, next, changed, changed', h => by
    cases h
    exact .refl
  | f :: rest, o, next, changed, changed', h => by
    unfold takeFields at h
    split_ifs at h
    · exact takeFields_changes h
    · split at h
      · cases h
      · next _ _ hadd =>
        exact .head (addField_changes hadd) (takeFields_changes h)

theorem takeRelations_changes {entity : String} :
    ∀ {relations : List (String × String × String)} {o next : Ontology} {changed changed' : Bool},
      takeRelations entity relations (o, changed) = .ok (next, changed') →
      ChangesOften entity o next
  | [], o, next, changed, changed', h => by
    cases h
    exact .refl
  | (name, target, verb) :: rest, o, next, changed, changed', h => by
    unfold takeRelations at h
    split at h
    · cases h
    · next _ _ hadd =>
      exact .head (addRelation_changes hadd) (takeRelations_changes h)

theorem takeHold_changes
    {entity : String} {hold : Option (String × List String × Bool)} {result : Ontology × Bool}
    {next : Ontology} {changed : Bool} (h : takeHold entity hold result = .ok (next, changed)) :
    ChangesOften entity result.1 next := by
  unfold takeHold at h
  split at h
  · cases h
    exact .refl
  · split at h
    · cases h
    · next _ _ hhold =>
      split at h
      · cases h
      · next _ _ hmark =>
        cases h
        exact .head (hold_changes hhold) (.single (setSearchable_changes hmark))

theorem takeIn_changes {request : TakeIn} {touched : List String}
    (h : takeIn request o = .ok (next, touched)) :
    ChangesOften request.entity o next ∧ (touched = [] ∨ touched = [request.entity]) := by
  unfold takeIn at h
  dsimp only at h
  split at h
  · cases h
  · next _ hfields =>
    split at h
    · cases h
    · next _ hrelations =>
      split at h
      · cases h
      · next _ changed hhold =>
        cases h
        refine ⟨((takeFields_changes hfields).trans
          (takeRelations_changes hrelations)).trans (takeHold_changes hhold), ?_⟩
        cases changed
        · exact Or.inl rfl
        · exact Or.inr rfl

theorem sameBut_of_changesOften (h : ChangesOften id o next) :
    SameBut o next id := by
  induction h with
  | refl => exact .refl _ _
  | tail _ hchanges ih => exact ih.trans (sameBut_of_changes hchanges)

theorem entityPatches_index {current next : Ontology} :
    ∀ {touched : List String} {patches : List PatchOp × List PatchOp},
      entityPatches current next touched = .ok patches →
      ∀ id ∈ touched, ∃ i, next.entityIndex id = some i
  | [], _, _, _, hid => by cases hid
  | t :: rest, patches, h, id, hid => by
    unfold entityPatches at h
    split at h
    · cases h
    · next index hindex =>
      split at h
      · cases h
      · next _ _ hrest =>
        rcases mem_cons.mp hid with rfl | hid
        · exact ⟨index, hindex⟩
        · exact entityPatches_index hrest id hid

theorem editEntities_eq_ok
    {op describe : String} {edit : Ontology → Edited (Ontology × List String)}
    (h : editEntities op describe edit o = .ok (some c)) :
    edit o = .ok (c.next, c.touched) ∧
      entityPatches o c.next c.touched = .ok (c.patch, c.undo) := by
  unfold editEntities at h
  split at h
  · cases h
  · cases h
  · next next _ _ hok =>
    split at h
    · cases h
    · next _ _ hpatches =>
      cases h
      exact ⟨hok, hpatches⟩

theorem takeInEdit_frames {request : TakeIn} (h : takeInEdit request o = .ok (some c)) :
    c.Frames o := by
  obtain ⟨hok, hpatches⟩ := editEntities_eq_ok h
  obtain ⟨hoften, htouched⟩ := takeIn_changes hok
  rcases htouched with htouched | htouched
  · unfold takeInEdit editEntities at h
    rw [hok, htouched] at h
    cases h
  · obtain ⟨i, hi⟩ := entityPatches_index hpatches request.entity (by simp [htouched])
    exact frames_of_sameBut htouched (sameBut_of_changesOften hoften) hi

end Frames

section Ids

/-- The ids stay in their order, or one that is new is appended. -/
def KeepsIds (o next : Ontology) : Prop :=
  next.entities.map idOf = o.entities.map idOf ∨ ∃ id, o.hasEntity id = false ∧
      next.entities.map idOf = o.entities.map idOf ++ [some id]

variable {o : Ontology} {c : Change}

theorem map_idOf_of_changes {next : Ontology} {id : String} (h : Changes o next id) :
    next.entities.map idOf = o.entities.map idOf := by
  obtain ⟨i, e, e', _, he, hid, rfl⟩ := h
  have hmap : (o.entities.map idOf)[i]? = some (idOf e) := by
    rw [getElem?_map, he]
    rfl
  obtain ⟨hlt, heq⟩ := List.getElem?_eq_some_iff.mp hmap
  rw [map_set, hid, ← heq]
  exact set_getElem_self hlt

theorem map_idOf_of_changesOften {next : Ontology} {id : String} (h : ChangesOften id o next) :
    next.entities.map idOf = o.entities.map idOf := by
  induction h with
  | refl => rfl
  | tail _ hchanges ih => exact (map_idOf_of_changes hchanges).trans ih

theorem idOf_newEntity (spec : EntitySpec) (id : String) (base : Option String) :
    idOf (o.newEntity spec id base) = some id := by
  simp [idOf, Ontology.newEntity, getStr?, object, get?, lookup_insertField, str?]

theorem addFieldEdit_keepsIds {entityRef : String} {field : FieldSpec}
    (h : addFieldEdit entityRef field o = .ok (some c)) : KeepsIds o c.next := by
  unfold addFieldEdit at h
  split at h
  · cases h
  · split at h
    · cases h
    · next _ _ hadd =>
      split at h
      · cases h
      · cases h
        exact Or.inl (map_idOf_of_changes (addField_changes hadd))

theorem addTypeEdit_keepsIds {spec : EntitySpec} (h : addTypeEdit spec o = .ok (some c)) :
    KeepsIds o c.next := by
  unfold addTypeEdit at h
  split at h
  · cases h
  · next _ _ hadd =>
    dsimp only at h
    split at h
    · cases h
    · cases h
      obtain ⟨⟨base, hentity, hnew⟩, rfl⟩ := addEntity_eq_ok hadd
      refine Or.inr ⟨_, hnew, ?_⟩
      rw [map_append, hentity, map_singleton, idOf_newEntity]

theorem applyToType_keepsIds {change : Ontology → String → Edited (Ontology × FieldChange)}
    {op summary entityRef : String}
    (hchange : ∀ id next changed, change o id = .ok (next, changed) → Changes o next id)
    (h : applyToType change op summary entityRef o = .ok (some c)) : KeepsIds o c.next := by
  unfold applyToType at h
  split at h
  · cases h
  · next id _ =>
    split at h
    · cases h
    · cases h
    · next next changed hok =>
      split at h
      · cases h
      · cases h
        exact Or.inl (map_idOf_of_changes (hchange id next changed hok))

theorem editFieldEdit_keepsIds {entityRef name : String} {edit : FieldEdit}
    (h : editFieldEdit entityRef name edit o = .ok (some c)) : KeepsIds o c.next := by
  unfold editFieldEdit at h
  split_ifs at h
  refine applyToType_keepsIds ?_ h
  intro id next changed hok
  obtain ⟨index, hmodify⟩ := editField_eq_ok hok
  exact changes_of_modifyEntity hmodify (fun _ _ _ => idOf_replaceProperty)

theorem removeFieldEdit_keepsIds {studio : Ontology} {entityRef name : String}
    (h : removeFieldEdit studio entityRef name o = .ok (some c)) : KeepsIds o c.next := by
  refine applyToType_keepsIds ?_ h
  intro id next changed hok
  obtain ⟨index, hmodify⟩ := removeField_eq_ok hok
  exact changes_of_modifyEntity hmodify (fun _ _ _ => idOf_dropProperty)

theorem takeInEdit_keepsIds {request : TakeIn} (h : takeInEdit request o = .ok (some c)) :
    KeepsIds o c.next :=
  Or.inl (map_idOf_of_changesOften (takeIn_changes (editEntities_eq_ok h).1).1)

end Ids

end DomainModel
end StudioWeb
