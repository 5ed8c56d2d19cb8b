import StudioWeb.DomainModel.QueryPaging
import StudioWeb.DomainModel.QuerySql

/-!
# The order of a query and its keyset as SQL

`sql::order` and `sql::after` of `query/sql.rs`.  A sort key is four columns of a row:
whether the value is absent, and its readings as a number, as text and as a boolean.
The table keeps text by code point, the id included.
-/

namespace StudioWeb
namespace DomainModel

open JsonValue CursorPaging List

variable {D : Type}

/-- `CASE WHEN jsonb_typeof(v) IS NULL OR jsonb_typeof(v) = 'null' THEN 1 ELSE 0 END`. -/
def absentColumn (v : Operand) : SortColumn (ObjectNode D) where
  Cell := Nat
  read := fun row =>
    match (v.value row none).map kindOf with
    | none => some 1
    | some kind => some (if kind = "null" then 1 else 0)
  order := compare
  desc := false

def numberColumn [Doubles D] (v : Operand) (desc : Bool) : SortColumn (ObjectNode D) where
  Cell := D
  read := fun row =>
    match v.value row none with
    | some (.number n) => some (Doubles.ofNumeric n.numeric)
    | _ => none
  order := compare
  desc := desc

def textColumn (v : Operand) (desc : Bool) : SortColumn (ObjectNode D) where
  Cell := String
  read := fun row =>
    match v.value row none with
    | some (.string s) => some s
    | _ => none
  order := compare
  desc := desc

def booleanColumn (v : Operand) (desc : Bool) : SortColumn (ObjectNode D) where
  Cell := Bool
  read := fun row =>
    match v.value row none with
    | some (.bool b) => some b
    | _ => none
  order := compare
  desc := desc

def idColumn : SortColumn (ObjectNode D) where
  Cell := String
  read := fun row => some row.instanceId
  order := compare
  desc := false

variable [Doubles D]

/-- `order`, and the id that the caller appends. -/
def order (keys : OrderKeys) : List (SortColumn (ObjectNode D)) :=
  keys.flatMap fun (path, dir) =>
    let v := valueAt path
    let desc := decide (dir = .desc)
    [absentColumn v, numberColumn v desc, textColumn v desc, booleanColumn v desc]

def rootOrder (keys : OrderKeys) : List (SortColumn (ObjectNode D)) := order keys ++ [idColumn]

def cursorColumns (path : List String) (dir : Direction) (value : Option (Value D)) :
    List (CursorColumn (ObjectNode D)) :=
  let v := valueAt path
  let desc := decide (dir = .desc)
  let (number, text, flag) : Option D × Option String × Option Bool :=
    match value with
    | some (.number n) => (some n.asF64, none, none)
    | some (.string s) => (none, some s, none)
    | some (.bool b) => (none, none, some b)
    | _ => (none, none, none)
  [⟨absentColumn v, some (if value.isNone then (1 : Nat) else (0 : Nat))⟩,
    ⟨numberColumn v desc, number⟩, ⟨textColumn v desc, text⟩, ⟨booleanColumn v desc, flag⟩]

def after (keys : OrderKeys) («at» : List (Option (Value D))) (id : String) :
    List (List (RowTest (ObjectNode D))) :=
  let cols := (keys.zip «at»).flatMap fun ((path, dir), value) => cursorColumns path dir value
  keyset [] (cols ++ [⟨idColumn, some id⟩])

theorem cursorColumns_lookup (path : List String) (dir : Direction) (c : ObjectNode D) :
    cursorColumns path dir (lookup c path) = (order [(path, dir)]).map fun k => k.at c := by
  rw [lookup_eq]
  simp only [order, flatMap_cons, flatMap_nil, append_nil, map_cons,
    map_nil, SortColumn.«at», cursorColumns]
  cases hv : (valueAt path).value c none with
  | none => simp [absentColumn, numberColumn, textColumn, booleanColumn, hv]
  | some x =>
    cases x <;>
      simp [absentColumn, numberColumn, textColumn, booleanColumn, hv, kindOf, Value.isNull,
        Option.filter, Number.ofNumeric_numeric]

theorem cursorColumns_sortValues (keys : OrderKeys) (c : ObjectNode D) :
    ((keys.zip (sortValues c keys)).flatMap
      fun ((path, dir), value) => cursorColumns path dir value) =
        (order keys).map fun k => k.at c := by
  induction keys with
  | nil => rfl
  | cons key rest ih =>
    have hsplit : (order (key :: rest) : List (SortColumn (ObjectNode D))) =
        order [key] ++ order rest := by
      simp [order]
    rw [hsplit, map_append, ← cursorColumns_lookup, ← ih]
    rfl

/-- The condition that `after` builds from the cursor of `c` is true of `r` exactly when
`r` comes after `c`. -/
theorem after_selects_iff (keys : OrderKeys) (r c : ObjectNode D) :
    selects r (after keys (Cursor.at c keys).keys (Cursor.at c keys).id) = true ↔
      rowOrder (rootOrder keys) r c = .gt := by
  have hcursor : after keys (Cursor.at c keys).keys (Cursor.at c keys).id =
      keyset [] ((rootOrder keys).map fun k => k.at c) := by
    unfold after rootOrder
    rw [map_append, ← cursorColumns_sortValues]
    rfl
  rw [hcursor, selects_keyset, beq_iff_eq]

end DomainModel
end StudioWeb
