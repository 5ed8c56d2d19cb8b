import StudioWeb.Library.Utf8Text
import StudioWeb.Library.SubstringSearch

/-!
# The scanner of a product description

`Doc` of `product/description_edit.rs`: each byte of a description is code, part
of a string or part of a comment; brackets and commas count only in code; and a
call's arguments, a list's items and what they say are read from there.

Offsets are byte offsets, and every index and every slice panics where the
source's does.  The walk of `Doc::new` is one byte at a time here: where the
source steps over the next bytes of a string, they are passed unread.
-/

namespace StudioWeb
namespace DescriptionEdit

open Rust

/-- `K`: what a byte of a description is. -/
inductive K where
  | code
  | str
  | comment
deriving DecidableEq

/-- A byte of a description and what it is. -/
structure Cell extends Utf8.Byte where
  kind : K
deriving DecidableEq

abbrev Span := Nat × Nat

def isQuote (c : Char) : Bool := c = '"' || c = '\''

/-- What the walk of `Doc::new` is inside of. -/
inductive Mode where
  | code
  | comment
  | str (quote : Char)
  | triple (quote : Char)
  /-- Some bytes of a string that are passed unread. -/
  | pass (count : Nat) (next : Mode)
deriving DecidableEq

/-- The next two bytes are both a quote. -/
def twoQuotes (quote : Char) : List Utf8.Byte → Bool
  | b :: b' :: _ => b.char = quote && b'.char = quote
  | _ => false

/-- One byte, with the bytes after it: what it is, and what comes next. -/
def markStep : Mode → Char → List Utf8.Byte → K × Mode
  | .code, c, after =>
    if c = '#' then
      (.comment, .comment)
    else if isQuote c then
      if twoQuotes c after then (.str, .pass 2 (.triple c)) else (.str, .str c)
    else
      (.code, .code)
  | .comment, c, _ => if c = '\n' then (.code, .code) else (.comment, .comment)
  | .str quote, c, _ =>
    if c = quote ∨ c = '\n' then (.str, .code)
    else if c = '\\' then (.str, .pass 1 (.str quote))
    else (.str, .str quote)
  | .triple quote, c, after =>
    if c = '\\' then (.str, .pass 1 (.triple quote))
    else if c = quote ∧ twoQuotes quote after = true then (.str, .pass 2 .code)
    else (.str, .triple quote)
  | .pass count next, _, _ =>
    (.str, if count ≤ 1 then next else .pass (count - 1) next)

def mark : Mode → List Utf8.Byte → List Cell
  | _, [] => []
  | mode, b :: bytes =>
    ⟨b, (markStep mode b.char bytes).1⟩ :: mark (markStep mode b.char bytes).2 bytes

/-- A description: its text, and its bytes with what they are. -/
structure Doc where
  t : List Char
  cells : List Cell
  marked : cells = mark .code (Utf8.encode t)

namespace Doc

def new (t : List Char) : Doc := ⟨t, mark .code (Utf8.encode t), rfl⟩

section Reading

variable (d : Doc)

/-- `self.t.len()`. -/
def len : Nat := d.cells.length

/-- `b[i]` and `self.m[i]`. -/
def cell (i : Nat) : Outcome Cell :=
  match d.cells[i]? with
  | some x => .ok x
  | none => overflow

/-- `b.get(i)`. -/
def charAt (i : Nat) : Option Char := d.cells[i]?.map fun x => x.char

def slice (s : Span) : Outcome (List Char) := Utf8.slice (Utf8.encode d.t) s.1 s.2

/-- `while i < e && p(i) { i += 1 }`, with `n` bytes up to `e`. -/
def skipWhile (p : Cell → Bool) : Nat → Nat → Outcome Nat
  | 0, i => .ok i
  | n + 1, i => do
    let x ← d.cell i
    if p x then skipWhile p n (i + 1) else .ok i

/-- `while e > s && p(e - 1) { e -= 1 }`, with `n` bytes down to `s`. -/
def skipBack (p : Cell → Bool) : Nat → Nat → Outcome Nat
  | 0, e => .ok e
  | n + 1, e => do
    let x ← d.cell (e - 1)
    if p x then skipBack p n (e - 1) else .ok e

end Reading

end Doc

def isAsciiWhitespace (x : Cell) : Bool :=
  x.char = ' ' || x.char = '\t' || x.char = '\n' || x.char = '\x0c' || x.char = '\r'

/-- What is trimmed of an item. -/
def isBlank (x : Cell) : Bool := x.kind = .comment || isAsciiWhitespace x

def isIdent (x : Cell) : Bool := x.char.isAlphanum || x.char = '_'

def isNamePart (x : Cell) : Bool := isIdent x || x.char = '.'

def isOpen (x : Cell) : Bool := x.char = '(' || x.char = '[' || x.char = '{'

def isClose (x : Cell) : Bool := x.char = ')' || x.char = ']' || x.char = '}'

/-- Every occurrence of two neighbours replaced by the second. -/
def replacePair (a b : Char) : List Char → List Char
  | x :: y :: rest =>
    if x = a ∧ y = b then b :: replacePair a b rest else x :: replacePair a b (y :: rest)
  | rest => rest

/-- What the escapes of a string literal stand for. -/
def unescape : List Char → List Char
  | [] => []
  | '\\' :: 'n' :: rest => '\n' :: unescape rest
  | '\\' :: c :: rest => c :: unescape rest
  | ['\\'] => []
  | c :: rest => c :: unescape rest

def strValue (text : List Char) : Option (List Char) :=
  match trim text with
  | [] => none
  | q :: inner =>
    if isQuote q ∧ inner.getLast? = some q then some (unescape inner.dropLast) else none

namespace Doc

section Lines

variable (d : Doc)

def norm (s : Span) : Outcome (List Char) := do
  let _ ← d.slice s
  let chars := ((d.cells.drop s.1).take (s.2 - s.1)).filterMap fun x =>
    if x.place = 0 ∧ x.kind ≠ .comment ∧ ¬ (x.kind = .code ∧ isWhitespace x.char) then
      some x.char
    else
      none
  .ok (replacePair ',' '}' (replacePair ',' ']' (replacePair ',' ')' chars)))

def lineStart (spot : Nat) : Outcome Nat := do
  let before ← d.slice (0, spot)
  .ok (Utf8.byteLen (before.reverse.dropWhile fun c => c ≠ '\n').reverse)

def lineEnd (spot : Nat) : Outcome Nat := do
  let after ← d.slice (spot, d.len)
  .ok (spot + Utf8.byteLen (after.takeWhile fun c => c ≠ '\n'))

def indentOf (spot : Nat) : Outcome (List Char) := do
  let s ← d.lineStart spot
  let rest ← d.slice (s, d.len)
  .ok (rest.takeWhile fun c => c = ' ' || c = '\t')

end Lines

section Brackets

variable (d : Doc)

/-- The bracket that closes the first one of some bytes, from some depth. -/
def closeFrom : List Cell → Nat → Nat → Option Nat
  | [], _, _ => none
  | x :: cells, i, depth =>
    if x.kind ≠ .code then closeFrom cells (i + 1) depth
    else if isOpen x then closeFrom cells (i + 1) (depth + 1)
    else if isClose x then
      match depth with
      | 0 => none
      | 1 => some i
      | depth + 2 => closeFrom cells (i + 1) (depth + 1)
    else closeFrom cells (i + 1) depth

def closeOf (bracket : Nat) : Option Nat := closeFrom (d.cells.drop bracket) bracket 0

/-- `push` of `items`: a piece without the blanks around it, unless it is
empty. -/
def trimmed (s e : Nat) : Outcome (List Span) := do
  let s ← d.skipWhile isBlank (e - s) s
  let e ← d.skipBack isBlank (e - s) e
  if s < e then .ok [(s, e)] else .ok []

/-- The loop of `items`, with `n` bytes up to `close`. -/
def itemsFrom (close : Nat) : Nat → Nat → Nat → Nat → Outcome (List Span)
  | 0, _, _, start => d.trimmed start close
  | n + 1, i, depth, start => do
    let x ← d.cell i
    if x.kind ≠ .code then itemsFrom close n (i + 1) depth start
    else if isOpen x then itemsFrom close n (i + 1) (depth + 1) start
    else if isClose x then itemsFrom close n (i + 1) (depth - 1) start
    else if x.char = ',' ∧ depth = 0 then do
      let item ← d.trimmed start i
      let rest ← itemsFrom close n (i + 1) depth (i + 1)
      .ok (item ++ rest)
    else itemsFrom close n (i + 1) depth start

def items (list : Span) : Outcome (List Span) :=
  d.itemsFrom list.2 (list.2 - (list.1 + 1)) (list.1 + 1) 0 (list.1 + 1)

end Brackets

end Doc

/-- `Call`: its brackets. -/
structure Call where
  bracket : Nat
  close : Nat
deriving DecidableEq

structure Arg where
  span : Span
  key : Option (List Char)
  value : Span
deriving DecidableEq

namespace Doc

section Calls

variable (d : Doc)

def call (span : Span) : Outcome (Option Call) := do
  let i ← d.skipWhile isNamePart (span.2 - span.1) span.1
  if i = span.1 then
    .ok none
  else
    let i ← d.skipWhile isAsciiWhitespace (span.2 - i) i
    if span.2 ≤ i ∨ d.charAt i ≠ some '(' then
      .ok none
    else
      match d.closeOf i with
      | none => .ok none
      | some close => if close + 1 = span.2 then .ok (some ⟨i, close⟩) else .ok none

/-- One argument of `args`. -/
def arg (item : Span) : Outcome Arg := do
  let i ← d.skipWhile isIdent (item.2 - item.1) item.1
  let j ← d.skipWhile isAsciiWhitespace (item.2 - i) i
  if item.1 < i ∧ j < item.2 ∧ d.charAt j = some '=' ∧ d.charAt (j + 1) ≠ some '=' then
    let v ← d.skipWhile isAsciiWhitespace (item.2 - (j + 1)) (j + 1)
    let key ← d.slice (item.1, i)
    .ok ⟨item, some key, (v, item.2)⟩
  else
    .ok ⟨item, none, item⟩

def args (c : Call) : Outcome (List Arg) := do
  let items ← d.items (c.bracket, c.close)
  items.mapM d.arg

def kw (c : Call) (key : List Char) : Outcome (Option Arg) := do
  let args ← d.args c
  .ok (args.find? fun a => a.key = some key)

def firstStr (c : Call) : Outcome (Option (List Char)) := do
  let args ← d.args c
  match args.find? fun a => a.key = none with
  | none => .ok none
  | some a => do
    let text ← d.slice a.value
    .ok (strValue text)

def kwStr (c : Call) (key : List Char) : Outcome (Option (List Char)) := do
  match ← d.kw c key with
  | none => .ok none
  | some a => do
    let text ← d.slice a.value
    .ok (strValue text)

/-- `list`; its span is taken off in any case. -/
def list (value : Span) : Outcome (Option Span) :=
  if value.2 = 0 then
    overflow
  else if d.charAt value.1 = some '[' ∧ d.closeOf value.1 = some (value.2 - 1) then
    .ok (some (value.1, value.2 - 1))
  else
    .ok none

def listOf (arg : Option Arg) : Outcome (Option Span) :=
  match arg with
  | none => .ok none
  | some a => d.list a.value

def productWord : List Char := "product".toList

/-- `self.t[i..].starts_with("product")`. -/
def startsProduct (i : Nat) : Outcome Bool := do
  let rest ← d.slice (i, d.len)
  .ok (productWord.isPrefixOf rest)

def startsName (i : Nat) : Bool := i = 0 || !(d.cells[i - 1]?.any isNamePart)

/-- The loop of `product`, with `n` bytes up to the end. -/
def productFrom : Nat → Nat → Nat → Outcome (Option Call)
  | 0, _, _ => .ok none
  | n + 1, i, depth => do
    let x ← d.cell i
    if x.kind ≠ .code then productFrom n (i + 1) depth
    else if isOpen x then productFrom n (i + 1) (depth + 1)
    else if isClose x then productFrom n (i + 1) (depth - 1)
    else if depth = 0 then do
      let starts ← d.startsProduct i
      if starts && d.startsName i then do
        let j ← d.skipWhile isAsciiWhitespace (d.len - (i + productWord.length))
          (i + productWord.length)
        if d.charAt j = some '(' then
          .ok ((d.closeOf j).map fun close => ⟨j, close⟩)
        else
          productFrom n (i + 1) depth
      else
        productFrom n (i + 1) depth
    else
      productFrom n (i + 1) depth

def product : Outcome (Option Call) := d.productFrom d.len 0 0

/-- `split_inclusive('\n')`. -/
def linesInclusive : List Char → List (List Char)
  | [] => []
  | c :: text =>
    if c = '\n' then
      [c] :: linesInclusive text
    else
      match linesInclusive text with
      | [] => [[c]]
      | line :: lines => (c :: line) :: lines

/-- The loop of `top_assign`. -/
def topAssignFrom (name : List Char) : List (List Char) → Nat → Option (Span × Span)
  | [], _ => none
  | line :: lines, start =>
    let next := topAssignFrom name lines (start + Utf8.byteLen line)
    if ¬ name.isPrefixOf line ∨ d.cells[start]?.map (fun x => x.kind) ≠ some .code then
      next
    else
      match trimStart (line.drop name.length) with
      | '=' :: value =>
        let v0 := start + (Utf8.byteLen line - Utf8.byteLen value)
        let v := trim value
        let vs := v0 + (Utf8.byteLen value - Utf8.byteLen (trimStart value))
        some ((start, start + Utf8.byteLen name), (vs, vs + Utf8.byteLen v))
      | _ => next

def topAssign (name : List Char) : Option (Span × Span) :=
  d.topAssignFrom name (linesInclusive d.t) 0

end Calls

end Doc

end DescriptionEdit
end StudioWeb
