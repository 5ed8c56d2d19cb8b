import StudioWeb.DescriptionEdit.Edits
import StudioWeb.Library.InsertionMap
import Mathlib.Algebra.Group.Nat.Defs

/-!
# A save laid onto the latest revision

`onto_latest`, `plugins`, `gdl_version`, `verify` and `gear_configs` of
`product/description_edit.rs`.  A save collects edits of the latest text, applies
them, and checks that nothing of the latest text is lost.

Where the source reads a map or a set only by its keys, the model has the list
the map is made of.  A number that is not an `i64` is left to `parse_f64`, which
stands for `str::parse::<f64>`.
-/

namespace StudioWeb
namespace DescriptionEdit

open Rust

inductive FrontendChange where
  | keep
  | write
  | remove
deriving DecidableEq

structure Change where
  removed : List (List Char)
  configChanged : List (List Char)
  frontend : FrontendChange
  productPath : List Char
  repo : Option (List Char)
deriving DecidableEq

/-- The caller took the gear or plugin out. -/
def Change.isRemoved (change : Change) (id : List Char) : Bool :=
  change.removed.any fun r => r = id || ('-' :: id).isSuffixOf r

/-- An item of a list that is a call with an id. -/
structure Named where
  id : List Char
  item : Span
  call : Call
deriving DecidableEq

namespace Doc

variable (d : Doc)

def namedOf (item : Span) : Outcome (Option Named) := do
  match ← d.call item with
  | none => .ok none
  | some c => do
    let id ← d.firstStr c
    .ok (id.map fun id => ⟨id, item, c⟩)

/-- The items of a list that are calls with an id. -/
def named (list : Span) : Outcome (List Named) := do
  let items ← d.items list
  let found ← items.mapM d.namedOf
  .ok (found.filterMap id)

def valueText (arg : Option Arg) : Outcome (Option (List Char)) :=
  match arg with
  | none => .ok none
  | some a => do
    let text ← d.slice a.value
    .ok (some text)

end Doc

section Gears

variable (ld rd : Doc) (change : Change)

/-- The loop of `plugins` over the latest list. -/
def pluginEdits (rplugins : List Named) (edits : Edits) (p : Named) :
    Outcome Edits := do
  match rplugins.find? fun r => r.id = p.id with
  | none => if change.isRemoved p.id then edits.deleteItem ld p.item else .ok edits
  | some r =>
    if change.configChanged.contains p.id then do
      let value ← rd.valueText (← rd.kw r.call "config".toList)
      edits.setKw ld p.call "config".toList value
    else
      .ok edits

def plugins (lc rc : Call) (edits : Edits) : Outcome Edits := do
  let rarg ← rd.kw rc "plugins".toList
  let rplugins ← do
    match ← rd.listOf rarg with
    | none => .ok []
    | some list => rd.named list
  let larg ← ld.kw lc "plugins".toList
  match ← ld.listOf larg with
  | none =>
    if larg.isNone && !rplugins.isEmpty then do
      match rarg with
      | none => .ok edits
      | some ra => do
        let text ← rd.slice ra.value
        edits.setKw ld lc "plugins".toList (some text)
    else
      .ok edits
  | some llist => do
    let lplugins ← ld.named llist
    let edits ← lplugins.foldlM (pluginEdits ld rd change rplugins) edits
    let added := rplugins.filter fun r => !lplugins.any fun p => p.id = r.id
    let texts ← added.mapM fun r => rd.slice r.item
    edits.insertItems ld llist texts (larg.map fun a => a.span)

/-- The loop of `onto_latest` over the latest gears. -/
def gearEdits (rgears : List Named) (edits : Edits) (gear : Named) :
    Outcome Edits := do
  match rgears.reverse.find? fun r => r.id = gear.id with
  | none =>
    if change.isRemoved gear.id then edits.deleteItem ld gear.item else .ok edits
  | some r => do
    let edits ←
      if change.configChanged.contains gear.id then do
        let value ← rd.valueText (← rd.kw r.call "config".toList)
        edits.setKw ld gear.call "config".toList value
      else
        .ok edits
    plugins ld rd change gear.call r.call edits

/-- The rendered entries the latest list does not have, renamed one by one. -/
def remapAll (rd : Doc) : Sources → List Named → Outcome (Sources × List (List Char))
  | s, [] => .ok (s, [])
  | s, r :: added => do
    let text ← rd.slice r.item
    let (s, text) := s.remap text
    let (s, texts) ← remapAll rd s added
    .ok (s, text :: texts)

end Gears

/-- `v.split('.').filter_map(|p| p.parse().ok())`. -/
def versionParts (v : List Char) : List Nat :=
  (v.splitOn '.').filterMap (parseUnsigned (2 ^ 32 - 1))

def versionLt (a b : List Char) : Bool := versionParts a < versionParts b

def gdlVersion (ld rd : Doc) (edits : Edits) : Outcome Edits :=
  match rd.topAssign "gdl_version".toList with
  | none => .ok edits
  | some (_, rvalue) => do
    let want ← rd.slice rvalue
    match ld.topAssign "gdl_version".toList with
    | some (_, lvalue) => do
      let text ← ld.slice lvalue
      if versionLt ((strValue text).getD []) ((strValue want).getD []) then
        .ok (edits.replace lvalue want)
      else
        .ok edits
    | none =>
      .ok (edits.insert 0 ("gdl_version = ".toList ++ want ++ ['\n', '\n']))

/-- A text into a `BTreeSet`. -/
def insertText (text : List Char) : List (List Char) → List (List Char)
  | [] => [text]
  | other :: texts =>
    if text = other then other :: texts
    else if text < other then text :: other :: texts
    else other :: insertText text texts

/-- The ids of an entry of `gears` and of its plugins. -/
def Doc.entryIds (d : Doc) (item : Span) : Outcome (List (List Char)) := do
  match ← d.call item with
  | none => .ok []
  | some c => do
    let id ← d.firstStr c
    match ← d.listOf (← d.kw c "plugins".toList) with
    | none => .ok id.toList
    | some list => do
      let plugins ← d.named list
      .ok (id.toList ++ plugins.map fun p => p.id)

/-- `gears` of `verify`. -/
def Doc.gearIds (d : Doc) (p : Call) : Outcome (List (List Char)) := do
  match ← d.listOf (← d.kw p "gears".toList) with
  | none => .ok []
  | some list => do
    let items ← d.items list
    let ids ← items.mapM d.entryIds
    .ok (ids.flatten.foldr insertText [])

/-- What `verify` finds lost, in order. -/
def lostOf (ld md : Doc) (lp mp : Call) (change : Change) :
    Outcome (List (List Char)) := do
  let has ← md.gearIds mp
  let gears ← ld.gearIds lp
  let lost := gears.filter fun g => !has.contains g && !change.isRemoved g
  let root := repoRootFrom change.productPath
  let declared ← md.sources mp root change.repo
  let sources ← ld.sources lp root change.repo
  let missing := sources.filter fun s => !declared.any fun known => known.id = s.id
  let frontend ←
    if change.frontend = .remove then
      .ok false
    else do
      let la ← ld.kw lp "frontend".toList
      if la.isNone then
        .ok false
      else do
        let ma ← md.kw mp "frontend".toList
        .ok ma.isNone
  .ok (lost.map (fun g => "gear `".toList ++ g ++ ['`']) ++
    missing.map (fun s => "source `".toList ++ s.id ++ ['`']) ++
    if frontend then ["the frontend".toList] else [])

def verify (latest merged : List Char) (change : Change) : Outcome Unit := do
  let ld := Doc.new latest
  let md := Doc.new merged
  let lp ← ld.product
  let mp ← md.product
  match lp, mp with
  | some lp, some mp => do
    let lost ← lostOf ld md lp mp change
    if lost = [] then
      .ok ()
    else
      fail (String.ofList ("it would drop ".toList ++
        [',', ' '].intercalate lost ++ " of the latest revision".toList))
  | _, _ => fail "the edited text no longer has a `product(...)`"

section OntoLatest

variable (ld rd : Doc) (change : Change)

/-- The `frontend` block. -/
def frontendEdits (lp rp : Call) (lgears : Arg) (sources : Sources) (edits : Edits) :
    Outcome (Sources × Edits) :=
  match change.frontend with
  | .keep => .ok (sources, edits)
  | .remove => do
    match ← ld.kw lp "frontend".toList with
    | none => .ok (sources, edits)
    | some a => do
      let edits ← edits.deleteItem ld a.span
      .ok (sources, edits)
  | .write => do
    match ← rd.kw rp "frontend".toList with
    | none => .ok (sources, edits)
    | some ra => do
      let text ← rd.slice ra.value
      let (sources, value) := sources.remap text
      match ← ld.kw lp "frontend".toList with
      | some la => do
        let mine ← ld.norm la.value
        let theirs ← (Doc.new value).norm (0, (Doc.new value).len)
        if mine ≠ theirs then do
          let edits ← gdlVersion ld rd (edits.replace la.value value)
          .ok (sources, edits)
        else
          .ok (sources, edits)
      | none => do
        let start ← ld.lineStart lgears.span.1
        let indent ← ld.indentOf lgears.span.1
        let edits ← gdlVersion ld rd (edits.insert start
          (indent ++ "frontend = ".toList ++ value ++ [',', '\n']))
        .ok (sources, edits)

/-- The product's `id` or `name`, as the caller gives it. -/
def titleEdits (lp rp : Call) (edits : Edits) (key : List Char) : Outcome Edits := do
  match ← ld.kw lp key, ← rd.kw rp key with
  | some la, some ra => do
    let mine ← ld.norm la.value
    let theirs ← rd.norm ra.value
    if mine ≠ theirs then do
      let text ← rd.slice ra.value
      .ok (edits.replace la.value text)
    else
      .ok edits
  | _, _ => .ok edits

def sourceEdits (lp : Call) (sources : Sources) (edits : Edits) : Outcome Edits :=
  if sources.added = [] then
    .ok edits
  else do
    let arg ← ld.kw lp "sources".toList
    match ← ld.listOf arg with
    | none =>
      fail (String.ofList ("the latest revision has no literal `sources` list to declare ".toList ++
          [',', ' '].intercalate
            (sources.added.map fun s => ['`'] ++ s.id ++ ['`']) ++ " in".toList))
    | some list =>
      edits.insertItems ld list (sources.added.map fun s => s.text) (arg.map fun a => a.span)

/-- The edits of a save, in the products of the two texts. -/
def collect (lp rp : Call) : Outcome Edits := do
  let lgearsArg ← ld.kw lp "gears".toList
  match lgearsArg, ← ld.listOf lgearsArg with
  | some lgearsArg, some lgears => do
    match ← rd.listOf (← rd.kw rp "gears".toList) with
    | none => fail "the text Studio rendered has no `gears` list"
    | some rgearsList => do
      let root := repoRootFrom change.productPath
      let latest ← ld.sources lp root change.repo
      let rendered ← rd.sources rp root change.repo
      let rgears ← rd.named rgearsList
      let lnamed ← ld.named lgears
      let edits ← lnamed.foldlM (gearEdits ld rd change rgears) []
      let (sources, added) ← remapAll rd ⟨latest, rendered, []⟩
        (rgears.filter fun r => !lnamed.any fun gear => gear.id = r.id)
      let edits ← edits.insertItems ld lgears added (some lgearsArg.span)
      let (sources, edits) ← frontendEdits ld rd change lp rp lgearsArg sources edits
      let edits ← ["id".toList, "name".toList].foldlM (titleEdits ld rd lp rp) edits
      sourceEdits ld lp sources edits
  | _, _ =>
    fail ("the latest revision's `gears` is not a literal list Studio can add to or " ++
      "take from; edit the description itself")

end OntoLatest

def edited (latest rendered : List Char) (change : Change) : Outcome (List Char) := do
  let ld := Doc.new latest
  let rd := Doc.new rendered
  match ← ld.product with
  | none =>
    fail ("the latest revision has no literal `product(...)` to edit, and replacing its " ++
      "text would drop all of it")
  | some lp => do
    match ← rd.product with
    | none => fail "the text Studio rendered has no `product(...)`"
    | some rp => do
      let edits ← collect ld rd change lp rp
      edits.apply latest

def ontoLatest (latest rendered : List Char) (change : Change) :
    Outcome (List Char) := do
  let merged ← edited latest rendered change
  verify latest merged change
  .ok merged

/-- `serde_json::Value`; what a number that is no `i64` reads as is not modelled. -/
inductive Value (Float64 : Type) where
  | null
  | bool (b : Bool)
  | int (n : Int)
  | float (x : Float64)
  | string (text : List Char)
  | array (values : List (Value Float64))
  | object (fields : List (List Char × Value Float64))

section Configs

variable {Float64 : Type} (parseF64 : List Char → Option (Value Float64))

/-- `map.insert(key, value)`. -/
def setField {β : Type} (key : List Char) (value : β) :
    List (List Char × β) → List (List Char × β)
  | [] => [(key, value)]
  | field :: fields =>
    if field.1 = key then (key, value) :: fields else field :: setField key value fields

/-- `str::parse::<i64>`. -/
def parseI64 : List Char → Option Int
  | '-' :: digits => (parseDigits (2 ^ 63) digits).map fun n => -(n : Int)
  | text => (parseUnsigned (2 ^ 63 - 1) text).map fun n => (n : Int)

def plainValue (text : List Char) : Value Float64 :=
  if text = "True".toList then .bool true
  else if text = "False".toList then .bool false
  else if text = "None".toList then .null
  else
    match parseI64 text with
    | some n => .int n
    | none => (parseF64 text).getD (.string text)

variable (d : Doc)

/-- One item of a dict: its key, and the span of its value. -/
def fieldOf (item : Span) : Outcome (Option (List Char × Span)) := do
  let spot ← d.skipWhile (fun x => !(x.char = ':' && x.kind = .code)) (item.2 - item.1) item.1
  if item.2 ≤ spot then
    .ok none
  else do
    let raw ← d.slice (item.1, spot)
    let v ← d.skipWhile isAsciiWhitespace (item.2 - (spot + 1)) (spot + 1)
    .ok (some ((strValue (trim raw)).getD (trim raw), (v, item.2)))

/-- `self.close_of(s.0) == Some(s.1 - 1)`, when a bracket begins the span. -/
def closesSpan (c : Char) (s : Span) : Outcome Bool :=
  if c = '{' ∨ c = '[' then
    if s.2 = 0 then overflow else .ok (d.closeOf s.1 = some (s.2 - 1))
  else
    .ok false

/-- `literal`, for values nested no deeper than the fuel. -/
def literal : Nat → Span → Outcome (Value Float64)
  | 0, _ => fail "out of fuel"
  | fuel + 1, s => do
    let text ← d.slice s
    let text := trim text
    match d.charAt s.1 with
    | some c => do
      let closes ← closesSpan d c s
      if c = '{' ∧ closes = true then do
        let items ← d.items (s.1, s.2 - 1)
        let fields ← items.foldlM (fun fields item => do
            match ← fieldOf d item with
            | none => .ok fields
            | some (key, span) => do
              let value ← literal fuel span
              .ok (setField key value fields))
          []
        .ok (.object fields)
      else if c = '[' ∧ closes = true then do
        let items ← d.items (s.1, s.2 - 1)
        let values ← items.mapM (literal fuel)
        .ok (.array values)
      else if isQuote c then
        .ok (.string ((strValue text).getD text))
      else
        .ok (plainValue parseF64 text)
    | none => .ok (plainValue parseF64 text)

/-- `take` of `gear_configs`. -/
def takeConfig (out : List (List Char × Value Float64)) (c : Call) :
    Outcome (List (List Char × Value Float64)) := do
  match ← d.firstStr c, ← d.kw c "config".toList with
  | some id, some config => do
    let value ← literal parseF64 d (d.len + 1) config.value
    .ok (setField id value out)
  | _, _ => .ok out

/-- The configurations of an entry of `gears`. -/
def entryConfigs (out : List (List Char × Value Float64)) (item : Span) :
    Outcome (List (List Char × Value Float64)) := do
  match ← d.call item with
  | none => .ok out
  | some c => do
    let out ← takeConfig parseF64 d out c
    match ← d.listOf (← d.kw c "plugins".toList) with
    | none => .ok out
    | some list => do
      let items ← d.items list
      items.foldlM (fun out item => do
          match ← d.call item with
          | none => .ok out
          | some pc => takeConfig parseF64 d out pc)
        out

end Configs

def gearConfigs {Float64 : Type} (parseF64 : List Char → Option (Value Float64))
    (text : List Char) : Outcome (List (List Char × Value Float64)) := do
  let d := Doc.new text
  match ← d.product with
  | none => .ok []
  | some p => do
    match ← d.listOf (← d.kw p "gears".toList) with
    | none => .ok []
    | some list => do
      let items ← d.items list
      items.foldlM (entryConfigs parseF64 d) []

end DescriptionEdit
end StudioWeb
