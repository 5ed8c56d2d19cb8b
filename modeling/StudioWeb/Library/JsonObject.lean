import StudioWeb.Library.JsonText

/-!
# Reading and changing JSON values

The accessors of a JSON value and the update of one field of an object.  The
fields of an object are kept in the order of their keys, the way a sorted map
keeps them, so an update of a key that is not there inserts it at its place.

A struct is read from an object, whose fields it finds by their names, or from an array,
whose items are its fields in order.  An array may end before the last field and never
goes on after it.  A field that is not there has a default, or the struct is not read.
-/

namespace StudioWeb
namespace JsonText
namespace Json

def get? (v : Json) (key : String) : Option Json :=
  match v with
  | .obj fields => fields.lookup key
  | _ => none

def str? : Json → Option String
  | .str text => some text
  | _ => none

def bool? : Json → Option Bool
  | .bool value => some value
  | _ => none

def arr? : Json → Option (List Json)
  | .arr items => some items
  | _ => none

def isObject : Json → Bool
  | .obj _ => true
  | _ => false

/-- The text of a field. -/
def getStr? (v : Json) (key : String) : Option String := (v.get? key).bind str?

/-- Insert into a map, or replace what the map has under the key. -/
def insertField (key : String) (value : Json) :
    List (String × Json) → List (String × Json)
  | [] => [(key, value)]
  | (k, v) :: rest =>
    if k = key then
      (key, value) :: rest
    else if key < k then
      (key, value) :: (k, v) :: rest
    else
      (k, v) :: insertField key value rest

/-- `value[key] = field`, on an object. -/
def setField (v : Json) (key : String) (field : Json) : Json :=
  match v with
  | .obj fields => .obj (insertField key field fields)
  | v => v

def object (fields : List (String × Json)) : Json :=
  .obj (fields.foldl (fun acc f => insertField f.1 f.2 acc) [])

theorem lookup_cons_eq (key other : String) (value : Json) (rest : List (String × Json)) :
    ((key, value) :: rest).lookup other =
      if other = key then some value else rest.lookup other := by
  rw [List.lookup_cons]
  by_cases h : other = key
  · simp [h]
  · have hbeq : (other == key) = false := by simpa using h
    rw [hbeq, if_neg h]

theorem lookup_insertField (key other : String) (value : Json) (fields : List (String × Json)) :
    (insertField key value fields).lookup other =
      if other = key then some value else fields.lookup other := by
  induction fields with
  | nil => exact lookup_cons_eq key other value []
  | cons f _ ih =>
    obtain ⟨k, v⟩ := f
    unfold insertField
    by_cases hk : k = key
    · subst hk
      rw [if_pos rfl, lookup_cons_eq, lookup_cons_eq]
      by_cases h : other = k <;> simp [h]
    · rw [if_neg hk]
      by_cases hlt : key < k
      · rw [if_pos hlt, lookup_cons_eq]
      · rw [if_neg hlt, lookup_cons_eq, lookup_cons_eq, ih]
        by_cases h : other = k
        · subst h
          simp [hk]
        · simp [h]

variable {v : Json}

theorem get?_setField (key other : String) (field : Json) (hobject : v.isObject = true) :
    (v.setField key field).get? other =
      if other = key then some field else v.get? other := by
  cases v with
  | obj fields => exact lookup_insertField key other field fields
  | _ => cases hobject

theorem get?_setField_ne {key other : String} (field : Json) (hne : other ≠ key) :
    (v.setField key field).get? other = v.get? other := by
  cases v with
  | obj =>
    rw [get?_setField key other field rfl, if_neg hne]
  | _ => rfl

theorem isObject_of_get? {key : String} {field : Json} (h : v.get? key = some field) :
    v.isObject = true := by
  cases v with
  | obj => rfl
  | _ => cases h

theorem getStr?_setField_ne {key other : String} (field : Json) (hne : other ≠ key) :
    (v.setField key field).getStr? other = v.getStr? other := by
  unfold getStr?
  rw [get?_setField_ne field hne]

end Json
universe u v

section StructFields

variable {α : Type u} {β : Type v}

def structFields (names : List String) : Json → Option (String → Option Json)
  | .obj fields => some fun name => fields.lookup name
  | .arr items =>
    if items.length ≤ names.length then
      some fun name => (names.zip items).lookup name
    else
      none
  | _ => none

/-- A field without a default. -/
def required (read : Json → Option α) (field : Option Json) : Option α := field.bind read

def defaulted (default : α) (read : Json → Option α) : Option Json → Option α
  | none => some default
  | some v => read v

/-- An optional value: `null` is none. -/
def nullable (read : Json → Option α) : Json → Option (Option α)
  | .null => some none
  | v => (read v).map some

def listOf (read : Json → Option α) : Json → Option (List α)
  | .arr items => items.mapM read
  | _ => none

variable {f : Json → Option α}

theorem mapM_bind {g : α → Option β} (items : List Json) :
    (items.mapM fun v => (f v).bind g) = (items.mapM f).bind fun xs => xs.mapM g := by
  induction items with
  | nil => rfl
  | cons v rest ih =>
    simp only [List.mapM_cons, ih]
    cases f v with
    | none => rfl
    | some =>
      cases rest.mapM f with
      | none => simp
      | some => simp [List.mapM_cons]

/-- What is read and then checked, item by item, is read and then checked. -/
theorem listOf_bind {g : α → Option β} (v : Json) :
    listOf (fun item => (f item).bind g) v = (listOf f v).bind fun xs => xs.mapM g := by
  cases v with
  | arr items => exact mapM_bind items
  | _ => rfl

theorem isSome_mapM {γ : Type v} {f : γ → Option α} {items : List γ} :
    (items.mapM f).isSome = items.all fun v => (f v).isSome := by
  induction items with
  | nil => rfl
  | cons v rest ih =>
    rw [List.all_cons, ← ih, List.mapM_cons]
    cases f v with
    | none => rfl
    | some =>
      cases rest.mapM f with
      | none => simp
      | some => simp

theorem isSome_listOf (v : Json) :
    (listOf f v).isSome = v.arr?.any fun items => items.all fun item => (f item).isSome := by
  cases v with
  | arr => exact isSome_mapM
  | _ => rfl

theorem isSome_defaulted {default : α} {read : Json → Option α} {field : Option Json} :
    (defaulted default read field).isSome = field.all fun v => (read v).isSome := by
  cases field with
  | none => rfl
  | some => rfl

end StructFields

end JsonText
end StudioWeb
