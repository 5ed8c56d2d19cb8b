import StudioWeb.Library.InsertionMap
import StudioWeb.Library.JsonObject
import StudioWeb.Library.WeightedPieces
import Mathlib.Logic.Function.Basic

/-!
# A table of documents kept as domain objects

One row is one object, its columns the object's fields.  A row whose payload is over
the budget has its longest fields cut into `record-chunk` objects, with a marker in the
row, and joined again on read.  The chunks are put first and the row after them, in two
calls of which each may fail; a call that fails may have stored the first of its objects.

What JSON values are written as, and read from, is `serde_json`'s.  The scope of an object
is beside its payload, and is not here.
-/

namespace StudioWeb
namespace Documents

open JsonText

/-- A payload above this many bytes has its longest fields cut into chunks. -/
def PAYLOAD_BUDGET : Nat := 56 * 1024

def CHUNK_BYTES : Nat := 48 * 1024

def CHUNKS : String := "$chunks"

abbrev Payload := InsertionMap String Json

/-- `"<entity>:<row id>"`. -/
def objectId (entity rowId : String) : String := entity ++ ":" ++ rowId

/-- The id of an object of a table; neither the name of an entity nor a UUID has a `#`. -/
structure ObjectId where
  text : String
  plain : '#' ∉ text.toList
deriving DecidableEq

def ObjectId.of (entity rowId : String) (hentity : '#' ∉ entity.toList)
    (hrow : '#' ∉ rowId.toList) : ObjectId where
  text := objectId entity rowId
  plain := by
    simp [objectId, hentity, hrow]

structure Row where
  id : ObjectId
  payload : Payload

structure Chunk where
  owner : ObjectId
  field : String
  ordinal : Nat
  text : String
deriving DecidableEq

/-- Its id. -/
def Chunk.key (c : Chunk) : String :=
  c.owner.text ++ "#" ++ c.field ++ "#" ++ String.ofList (Nat.toDigits 10 c.ordinal)

/-- `v.get(CHUNKS).is_some()`. -/
def isMarker (v : Json) : Bool := (v.get? CHUNKS).isSome

/-- `Value::as_i64`, of a number in its range. -/
def asI64 : Json → Option Int
  | .int n => some n
  | _ => none

/-- What stands for a field of `parts` pieces. -/
def marker (parts : Nat) (isJson : Bool) : Json :=
  .obj [(CHUNKS, .int parts), ("json", .bool isJson)]

def markerCount (v : Json) : Int := ((v.get? CHUNKS).bind asI64).getD 0

def markerIsJson (v : Json) : Bool := ((v.get? "json").bind Json.bool?).getD false

section Cut

/-- Cut a text into pieces of at most `CHUNK_BYTES`, on character boundaries. -/
def textPieces (text : String) : List String :=
  (pieces Char.utf8Size CHUNK_BYTES text.toList).map String.ofList

variable
  -- The text that a value is written as.
  (toText : Json → String)

/-- The bytes of a value. -/
def size (v : Json) : Nat := (toText v).utf8ByteSize

/-- The last of the longest fields that are not cut yet. -/
def longest (fields : List (String × Json)) : Option (String × Json) :=
  (fields.filter fun f => !isMarker f.2).foldl (fun best f =>
      match best with
      | none => some f
      | some b => if size toText b.2 ≤ size toText f.2 then some f else some b)
    none

def fieldText : Json → String × Bool
  | .str text => (text, false)
  | v => (toText v, true)

def fieldChunks (id : ObjectId) (name : String) (v : Json) : List Chunk :=
  (textPieces (fieldText toText v).1).mapIdx fun i part => ⟨id, name, i, part⟩

def fieldMarker (v : Json) : Json :=
  marker (textPieces (fieldText toText v).1).length (fieldText toText v).2

/-- At most `fuel` turns of the loop of `cut`. -/
def cutWith (id : ObjectId) : Nat → Payload → Payload × List Chunk
  | 0, payload => (payload, [])
  | fuel + 1, payload =>
    if size toText (.obj payload.entries) ≤ PAYLOAD_BUDGET then
      (payload, [])
    else
      match longest toText payload.entries with
      | none => (payload, [])
      | some (name, v) =>
        if size toText v < 1024 then
          (payload, [])
        else
          let rest := cutWith id fuel (payload.set name (fieldMarker toText v))
          (rest.1, fieldChunks toText id name v ++ rest.2)

/-- The fields that are not cut yet. -/
def unmarked (payload : Payload) : List (String × Json) :=
  payload.entries.filter fun f => !isMarker f.2

/-- Move the longest fields of an oversized payload into chunk objects.  Every turn cuts
one field. -/
def cut (id : ObjectId) (payload : Payload) : Payload × List Chunk :=
  cutWith toText id (unmarked payload).length payload

def Row.object (r : Row) : Payload := (cut toText r.id r.payload).1

def Row.chunks (r : Row) : List Chunk := (cut toText r.id r.payload).2

end Cut

/-- The chunk objects, by their ids. -/
structure ChunkTable where
  map : InsertionMap String Chunk
  keyed : ∀ key c, map.get? key = some c → c.key = key

namespace ChunkTable

def put (chunks : ChunkTable) (cs : List Chunk) : ChunkTable where
  map := chunks.map.setAll Chunk.key (fun c => c) cs
  keyed := by
    intro key c hget
    have hcases := @InsertionMap.get?_setAll_cases _ _ _ _ Chunk.key (fun c => c) chunks.map cs key
    rcases hcases with hsame | ⟨d, _, hkey, hval⟩
    · rw [hsame] at hget
      exact chunks.keyed key c hget
    · rw [hval] at hget
      exact Option.some.inj hget ▸ hkey

/-- A chunk stands in its place. -/
def Has (chunks : ChunkTable) (c : Chunk) : Prop := chunks.map.get? c.key = some c

end ChunkTable

section Join

variable
  -- What a text is read as.
  (fromText : String → Option Json)

/-- The text of the chunks of a field that a marker counts, in their order. -/
def joinedText (chunks : ChunkTable) (id : ObjectId) (name : String) (count : Int) : String :=
  let own := chunks.map.values.filter fun c => c.owner.text == id.text && c.field == name
  let counted := own.filter fun c => decide ((c.ordinal : Int) < count)
  String.join ((counted.mergeSort fun a b => a.ordinal ≤ b.ordinal).map Chunk.text)

def joinField (chunks : ChunkTable) (id : ObjectId) (f : String × Json) : Json :=
  let text := joinedText chunks id f.1 (markerCount f.2)
  if markerIsJson f.2 then
    (fromText text).getD .null
  else
    .str text

/-- Join chunked fields back into their object. -/
def join (chunks : ChunkTable) (id : ObjectId) (object : Payload) : Payload :=
  object.setAll Prod.fst (joinField fromText chunks id)
    (object.entries.filter fun f => isMarker f.2)

end Join

/-- What the model holds of a table. -/
structure Tables where
  objects : ObjectId → Option Payload
  chunks : ChunkTable

/-- How a write ends: a call that fails has stored so many of its objects. -/
inductive Fate where
  | completes
  | chunksFail (stored : Nat)
  | rowsFail (stored : Nat)
deriving DecidableEq

namespace Tables

variable
  (toText : Json → String)
  (fromText : String → Option Json)

def putChunks (t : Tables) (cs : List Chunk) : Tables :=
  { t with chunks := t.chunks.put cs }

def putObjects (t : Tables) (rows : List Row) : Tables :=
  { t with
    objects :=
      rows.foldl (fun objects r => Function.update objects r.id (some (r.object toText)))
        t.objects }

def write (t : Tables) (rows : List Row) : Fate → Tables
  | .completes =>
    (t.putChunks (rows.flatMap (Row.chunks toText))).putObjects toText rows
  | .chunksFail stored =>
    t.putChunks ((rows.flatMap (Row.chunks toText)).take stored)
  | .rowsFail stored =>
    (t.putChunks (rows.flatMap (Row.chunks toText))).putObjects toText (rows.take stored)

/-- What a read answers for a row. -/
def read (t : Tables) (id : ObjectId) : Option Payload :=
  (t.objects id).map (join fromText t.chunks id)

/-- The columns named in `update`, of a row that exists. -/
def merge (base new : Payload) (update : List String) : Payload :=
  base.setAll Prod.fst Prod.snd (new.entries.filter fun f => update.contains f.1)

/-- The rows that an upsert writes: with `update`, a row that exists keeps every column
not named there. -/
def merged (t : Tables) (rows : List Row) : Option (List String) → List Row
  | none => rows
  | some update =>
    rows.map fun r =>
      match t.read fromText r.id with
      | none => r
      | some old => { r with payload := merge old r.payload update }

/-- Upsert rows. -/
def put (t : Tables) (rows : List Row) (update : Option (List String)) (fate : Fate) : Tables :=
  t.write toText (t.merged fromText rows update) fate

end Tables

end Documents
end StudioWeb
