import StudioWeb.DescriptionEdit.Scanner
import Mathlib.Data.List.Sort

/-!
# The sources of a description, and edits of its text

`Source`, `Sources` and `Edits` of `product/description_edit.rs`: what a source
points at, the id a description knows a rendered source by, and a set of edits
that is applied from the end of the text to its front.
-/

namespace StudioWeb
namespace DescriptionEdit

open Rust

/-- `str::trim_end_matches` of a character. -/
def trimEndChar (c : Char) (text : List Char) : List Char :=
  (text.reverse.dropWhile fun x => x = c).reverse

/-- `str::trim_end_matches` of a text that is not empty. -/
def trimEndText (ending : List Char) : Nat → List Char → List Char
  | 0, text => text
  | n + 1, text =>
    if ending.isSuffixOf text then
      trimEndText ending n (text.take (text.length - ending.length))
    else
      text

def repoKey (value : List Char) : List Char :=
  let v := trimEndText ".git".toList value.length (trimEndChar '/' (trim value))
  let v := (SubstringSearch.splitFirst "://".toList v).elim v fun p => p.2
  let parts := (v.splitOn '/').filter fun s => s ≠ []
  (['/'].intercalate (parts.drop (parts.length - 2))).map Char.toLower

def repoRootFrom (productPath : List Char) : List Char :=
  let depth := ((productPath.splitOn '/').filter fun s => s ≠ []).length
  let up := trimEndChar '/' (List.replicate (depth - 1) "../".toList).flatten
  if up = [] then ['.'] else up

structure Source where
  id : List Char
  identity : List Char
  text : List Char
deriving DecidableEq

namespace Doc

variable (d : Doc)

/-- A path as `identity` compares it. -/
def identityPath (p : List Char) : List Char :=
  let p := trimEndChar '/' (trim p)
  let p := (stripPrefix "./".toList p).getD p
  if p = [] then ['.'] else p

def identity (spot : Span) (root : List Char) (repo : Option (List Char)) :
    Outcome (List Char) := do
  let _ ← d.slice spot
  match ← d.call spot with
  | none => do
    let text ← d.norm spot
    .ok ("text:".toList ++ text)
  | some c => do
    let name ← d.slice (spot.1, c.bracket)
    if trim name = "git".toList then do
      let url ← do
        match ← d.kwStr c "url".toList with
        | some url => .ok (some url)
        | none => d.firstStr c
      match url with
      | some url => .ok ("repo:".toList ++ repoKey url)
      | none => do
        let text ← d.norm spot
        .ok ("text:".toList ++ text)
    else if trim name = "path".toList then do
      let p ← d.firstStr c
      let p := identityPath (p.getD [])
      match repo with
      | some r =>
        if p = root then .ok ("repo:".toList ++ repoKey r)
        else .ok ("path:".toList ++ p)
      | none => .ok ("path:".toList ++ p)
    else do
      let text ← d.norm spot
      .ok ("text:".toList ++ text)

/-- The source that an item of `sources` declares, when it is one. -/
def sourceOf (root : List Char) (repo : Option (List Char)) (item : Span) :
    Outcome (Option Source) := do
  match ← d.call item with
  | none => .ok none
  | some c => do
    let id ← do
      match ← d.kwStr c "id".toList with
      | some id => .ok (some id)
      | none => d.firstStr c
    match id with
    | none => .ok none
    | some id => do
      let identity ← do
        match ← d.kw c "at".toList with
        | some a => d.identity a.value root repo
        | none => .ok ("id:".toList ++ id)
      let text ← d.slice item
      .ok (some ⟨id, identity, text⟩)

def sources (p : Call) (root : List Char) (repo : Option (List Char)) :
    Outcome (List Source) := do
  match ← d.listOf (← d.kw p "sources".toList) with
  | none => .ok []
  | some list => do
    let items ← d.items list
    let found ← items.mapM (d.sourceOf root repo)
    .ok (found.filterMap id)

end Doc

/-- `Sources`; the rendered ones are looked up from the last. -/
structure Sources where
  latest : List Source
  rendered : List Source
  added : List Source
deriving DecidableEq

namespace Sources

def resolve (s : Sources) (id : List Char) : Sources × List Char :=
  if s.latest.any (fun known => known.id = id) then
    (s, id)
  else
    match s.rendered.reverse.find? fun r => r.id = id with
    | none => (s, id)
    | some r =>
      match s.latest.find? fun known => known.identity = r.identity with
      | some same => (s, same.id)
      | none =>
        if s.added.any (fun known => known.id = id) then
          (s, id)
        else
          ({ s with added := s.added ++ [r] }, id)

def sourceMark : List Char := "source = \"".toList

/-- The loop of `remap`. -/
def remapFrom : Nat → Sources → List Char → Sources × List Char
  | 0, s, rest => (s, rest)
  | n + 1, s, rest =>
    match SubstringSearch.splitFirst sourceMark rest with
    | none => (s, rest)
    | some (before, rest) =>
      let (s, known) := s.resolve (rest.takeWhile fun c => c ≠ '"')
      let (s, out) := remapFrom n s (rest.dropWhile fun c => c ≠ '"')
      (s, before ++ sourceMark ++ known ++ out)

def remap (s : Sources) (text : List Char) : Sources × List Char := remapFrom text.length s text

end Sources

/-- An edit: `(start, end, text, order)`. -/
structure Edit where
  start : Nat
  stop : Nat
  text : List Char
  order : Nat
deriving DecidableEq

abbrev Edits := List Edit

namespace Edits

def push (edits : Edits) (start stop : Nat) (text : List Char) : Edits :=
  edits ++ [⟨start, stop, text, edits.length⟩]

def insert (edits : Edits) (spot : Nat) (text : List Char) : Edits := edits.push spot spot text

def replace (edits : Edits) (span : Span) (text : List Char) : Edits :=
  edits.push span.1 span.2 text

def deleteItem (edits : Edits) (d : Doc) (span : Span) : Outcome Edits := do
  let (s, e) := span
  let j ← d.skipWhile (fun x => x.char = ' ' || x.char = '\t') (d.len - e) e
  let comma := d.cells[j]?.any fun x => x.char = ',' && x.kind = .code
  let e := if comma then j + 1 else e
  let ls ← d.lineStart s
  let le ← d.lineEnd e
  let before ← d.slice (ls, s)
  let _ ← d.slice (e, le)
  let afterBlank := ((d.cells.drop e).take (le - e)).all fun x =>
    x.kind = .comment || x.char = ' ' || x.char = '\t' || x.char = '\r'
  if trim before = [] ∧ afterBlank = true then
    .ok (edits.push ls (min (le + 1) d.len) [])
  else do
    let e ← d.skipWhile (fun x => x.char = ' ') (d.len - e) e
    .ok (edits.push s e [])

/-- `texts.iter().map(..).collect()`. -/
def joined (f : List Char → List Char) (texts : List (List Char)) : List Char :=
  (texts.map f).flatten

def insertItems (edits : Edits) (d : Doc) (list : Span) (texts : List (List Char))
    (owner : Option Span) : Outcome Edits :=
  if texts = [] then
    .ok edits
  else do
    let items ← d.items list
    let inside ← d.slice list
    let multiline := inside.contains '\n' || items.isEmpty
    let ownerStart := (owner.map Prod.fst).getD list.1
    match items.getLast? with
    | some last => do
      let j ← d.skipWhile isAsciiWhitespace (list.2 - last.2) last.2
      let comma := decide (j < list.2) && decide (d.charAt j = some ',')
      if multiline then do
        let indent ← d.indentOf last.1
        let lineEnd ← d.lineEnd (if comma then j + 1 else last.2)
        let edits := if comma then edits else edits.insert last.2 [',']
        if lineEnd < list.2 then
          .ok (edits.insert (lineEnd + 1) (joined (fun t => indent ++ t ++ [',', '\n']) texts))
        else do
          let closeIndent ← d.indentOf ownerStart
          .ok (edits.insert list.2 (joined (fun t => '\n' :: indent ++ t ++ [',']) texts ++
              '\n' :: closeIndent))
      else
        let body := [',', ' '].intercalate texts
        if comma then
          .ok (edits.insert (j + 1) (' ' :: body))
        else
          .ok (edits.insert last.2 (',' :: ' ' :: body))
    | none => do
      let base ← d.indentOf ownerStart
      .ok (edits.push (list.1 + 1) list.2
        (joined (fun t => '\n' :: base ++ "    ".toList ++ t ++ [',']) texts ++ '\n' :: base))

def setKw (edits : Edits) (d : Doc) (c : Call) (key : List Char)
    (value : Option (List Char)) : Outcome Edits := do
  let args ← d.args c
  let i := args.findIdx fun a => a.key = some key
  match args[i]?, value with
  | some a, some v => do
    let mine ← d.norm a.value
    let theirs ← (Doc.new v).norm (0, (Doc.new v).len)
    if mine ≠ theirs then .ok (edits.replace a.value v) else .ok edits
  | some a, none =>
    let (s, e) :=
      if 0 < i then ((args[i - 1]?.elim a.span.1 fun b => b.span.2), a.span.2)
      else (a.span.1, (args[1]?.elim a.span.2 fun b => b.span.1))
    .ok (edits.push s e [])
  | none, some v =>
    match args.getLast? with
    | some last =>
      .ok (edits.insert last.span.2 (',' :: ' ' :: key ++ " = ".toList ++ v))
    | none => .ok (edits.insert (c.bracket + 1) (key ++ " = ".toList ++ v))
  | none, none => .ok edits

def applied (a b : Edit) : Prop :=
  b.start < a.start ∨ (b.start = a.start ∧
    (b.stop < a.stop ∨ (b.stop = a.stop ∧ b.order ≤ a.order)))

instance : DecidableRel applied := fun _ _ => instDecidableOr

/-- Whether an edit reaches into one that is applied before it. -/
def overlaps : Option Nat → List Edit → Bool
  | _, [] => false
  | floor, edit :: edits =>
    if floor.any (fun f => f < edit.stop) then
      true
    else
      overlaps (some (floor.elim edit.start fun f => min f edit.start)) edits

/-- `replace_range` of each edit. -/
def replaceAll : List Char → List Edit → Outcome (List Char)
  | out, [] => .ok out
  | out, edit :: edits => do
    let out ← Utf8.replaceRange out edit.start edit.stop edit.text
    replaceAll out edits

def apply (edits : Edits) (text : List Char) : Outcome (List Char) :=
  let sorted := edits.insertionSort applied
  if overlaps none sorted then
    fail "Studio's edits of the description overlap"
  else
    replaceAll text sorted

end Edits

end DescriptionEdit
end StudioWeb
