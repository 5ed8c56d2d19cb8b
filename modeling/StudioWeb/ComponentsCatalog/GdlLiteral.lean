import StudioWeb.Library.RustPrelude
import Mathlib.Algebra.Group.Nat.Defs

/-!
# The declarative subset that passports are written in

`components_catalog/gdl_literal.rs`: the scan of a passport's text into tokens with their
lines, the recursive reader of literals and named arguments, and `read_call`, which takes one
`gdl_version` and one call.  Nothing is evaluated.

A reader is given the tokens that are left and gives back those after what it took; the loops
have a bound on their steps.
-/

namespace StudioWeb
namespace ComponentsCatalog

inductive DictValue where
  | str (s : String)
  | int (n : Nat)
deriving DecidableEq

inductive Lit where
  | bool (b : Bool)
  | none
  | str (s : String)
  | int (n : Nat)
  | list (items : List String)
  | dict (entries : List (String × DictValue))
deriving DecidableEq

/-- `Call`: each argument with its line. -/
structure Call where
  name : String
  args : List (String × Lit × Nat)
  line : Nat
deriving DecidableEq

inductive Tok where
  | ident (w : String)
  | str (s : String)
  | int (n : Nat)
  | lParen
  | rParen
  | lBracket
  | rBracket
  | lBrace
  | rBrace
  | colon
  | comma
  | eq
deriving DecidableEq

abbrev Spanned := Tok × Nat

section Lexing

/-- The tokens of one character. -/
def single : Char → Option Tok
  | '(' => some .lParen
  | ')' => some .rParen
  | '[' => some .lBracket
  | ']' => some .rBracket
  | '{' => some .lBrace
  | '}' => some .rBrace
  | ':' => some .colon
  | ',' => some .comma
  | _ => none

def escaped : Char → Option Char
  | '\\' => some '\\'
  | '"' => some '"'
  | '\'' => some '\''
  | 'n' => some '\n'
  | 't' => some '\t'
  | _ => none

/-- The loop of `string`, after the opening quote. -/
def stringLoop (quote : Char) (line : Nat) : List Char → Except String (List Char × List Char)
  | [] => .error s!"line {line}: a string is not closed"
  | c :: rest =>
    if c = '\n' then
      .error s!"line {line}: a string is not closed"
    else if c = quote then
      .ok ([], rest)
    else if c = '\\' then
      match rest with
      | [] => .error s!"line {line}: the escape `\\` is not read"
      | e :: rest =>
        match escaped e with
        | some said => do
          let r ← stringLoop quote line rest
          .ok (said :: r.1, r.2)
        | none => .error s!"line {line}: the escape `\\{e}` is not read"
    else do
      let r ← stringLoop quote line rest
      .ok (c :: r.1, r.2)

def string (quote : Char) (rest : List Char) (line : Nat) : Except String (String × List Char) :=
  if rest.head? = some quote && rest.tail.head? = some quote then
    .error s!"line {line}: a triple-quoted string; only one-line strings are read"
  else do
    let r ← stringLoop quote line rest
    .ok (String.ofList r.1, r.2)

variable (file : String)

/-- A whole number of `lex`. -/
def lexInt (c : Char) (rest : List Char) (line : Nat) : Except String (Tok × List Char) :=
  let after := rest.dropWhile Char.isDigit
  if after.head?.any fun c => c.isAlphanum || c = '.' || c = '_' then
    .error s!"line {line}: only whole numbers are read; a version or a size is a string"
  else
    let digits := c :: rest.takeWhile Char.isDigit
    match Rust.parseDigits (2 ^ 64 - 1) digits with
    | some n => .ok (.int n, after)
    | none =>
      let digits := String.ofList digits
      .error s!"line {line}: {digits} is too large"

def isWordChar (c : Char) : Bool := c.isAlphanum || c = '_'

/-- A word of `lex`. -/
def lexWord (c : Char) (rest : List Char) (line : Nat) : Except String (Tok × List Char) :=
  let word := String.ofList (c :: rest.takeWhile isWordChar)
  let after := rest.dropWhile isWordChar
  if after.head?.any fun c => c = '"' || c = '\'' then
    .error (s!"line {line}: `{word}\"...\"` is a prefixed string; only plain \"...\" or '...' " ++
        "strings are read")
  else
    .ok (.ident word, after)

/-- What `lex` does at a character that is no blank. -/
def lexToken (c : Char) (rest : List Char) (line : Nat) : Except String (Tok × List Char) :=
  match single c with
  | some tok => .ok (tok, rest)
  | none =>
    if c = '=' then
      if rest.head? = some '=' then
        .error s!"line {line}: `==` is a comparison; a {file} states, it does not compute"
      else
        .ok (.eq, rest)
    else if c = '"' || c = '\'' then do
      let r ← string c rest line
      .ok (.str r.1, r.2)
    else if c.isDigit then
      lexInt c rest line
    else if c.isAlpha || c = '_' then
      lexWord c rest line
    else
      .error (s!"line {line}: `{c}` is outside what a {file} may say (one call with literal " ++
          "arguments)")

/-- The loop of `lex`. -/
def lexLoop : Nat → List Char → Nat → Except String (List Spanned)
  | 0, _, _ => .error ""
  | _ + 1, [], _ => .ok []
  | fuel + 1, c :: rest, line =>
    if c = '\n' then
      lexLoop fuel rest (line + 1)
    else if c = ' ' || c = '\t' || c = '\r' then
      lexLoop fuel rest line
    else if c = '#' then
      lexLoop fuel (rest.dropWhile fun c => c ≠ '\n') line
    else do
      let t ← lexToken file c rest line
      let toks ← lexLoop fuel t.2 line
      .ok ((t.1, line) :: toks)

/-- `lex`; a step takes a character at least. -/
def lex (src : String) : Except String (List Spanned) :=
  lexLoop file (src.toList.length + 1) src.toList 1

end Lexing

section Parser

def A_VALUE : String :=
  "True, False, None, a string, a whole number, a list of strings or a dict of strings " ++
    "to strings or numbers"

-- The line of the last token of the text.
variable (endLine : Nat)

/-- `Parser::line`. -/
def parserLine (toks : List Spanned) : Nat := (toks.head?.map Prod.snd).getD endLine

/-- `Parser::ends_inside`, where no token is left. -/
def endsInside (what : String) : String := s!"line {endLine}: the file ends inside a {what}"

def itemEnd (close : Tok) (what : String) : List Spanned → Except String (Bool × List Spanned)
  | (tok, l) :: rest =>
    if tok = .comma then
      .ok (false, rest)
    else if tok = close then
      .ok (true, rest)
    else
      .error s!"line {l}: expected `,` or the end of the {what}"
  | [] => .error (endsInside endLine what)

def list : Nat → List Spanned → Except String (List String × List Spanned)
  | 0, _ => .error ""
  | fuel + 1, toks =>
    match toks with
    | (.rBracket, _) :: rest => .ok ([], rest)
    | (.str s, _) :: rest => do
      let stop ← itemEnd endLine .rBracket "list" rest
      if stop.1 then
        .ok ([s], stop.2)
      else
        let r ← list fuel stop.2
        .ok (s :: r.1, r.2)
    | (_, l) :: _ => .error s!"line {l}: a list holds strings only"
    | [] => .error (endsInside endLine "list")

/-- The `:` after a key. -/
def afterKey : List Spanned → Except String (List Spanned)
  | (.colon, _) :: rest => .ok rest
  | (_, l) :: _ => .error s!"line {l}: expected `:` after a key"
  | [] => .error (endsInside endLine "dict")

def dictValue : List Spanned → Except String (DictValue × List Spanned)
  | (.str v, _) :: rest => .ok (.str v, rest)
  | (.int n, _) :: rest => .ok (.int n, rest)
  | (_, l) :: _ => .error s!"line {l}: a dict maps strings to strings or numbers"
  | [] => .error (endsInside endLine "dict")

/-- `Parser::dict`, with the entries it has. -/
def dict : Nat → List (String × DictValue) → List Spanned →
    Except String (List (String × DictValue) × List Spanned)
  | 0, _, _ => .error ""
  | fuel + 1, entries, toks =>
    match toks with
    | (.rBrace, _) :: rest => .ok (entries, rest)
    | (.str k, l) :: rest => do
      let rest ← afterKey endLine rest
      let v ← dictValue endLine rest
      if k ∈ entries.map Prod.fst then
        .error s!"line {l}: the key \"{k}\" is given twice"
      else
        let entries := entries ++ [(k, v.1)]
        let stop ← itemEnd endLine .rBrace "dict" v.2
        if stop.1 then .ok (entries, stop.2) else dict fuel entries stop.2
    | (_, l) :: _ => .error s!"line {l}: a dict's keys are strings"
    | [] => .error (endsInside endLine "dict")

def value : List Spanned → Except String (Lit × List Spanned)
  | (.ident w, l) :: rest =>
    if w = "True" then .ok (.bool true, rest)
    else if w = "False" then .ok (.bool false, rest)
    else if w = "None" then .ok (.none, rest)
    else .error s!"line {l}: `{w}` is a name, not a literal; a value is {A_VALUE}"
  | (.str s, _) :: rest => .ok (.str s, rest)
  | (.int n, _) :: rest => .ok (.int n, rest)
  | (.lBracket, _) :: rest => do
    let r ← list endLine (rest.length + 1) rest
    .ok (.list r.1, r.2)
  | (.lBrace, _) :: rest => do
    let r ← dict endLine (rest.length + 1) [] rest
    .ok (.dict r.1, r.2)
  | (_, l) :: _ => .error s!"line {l}: expected a value ({A_VALUE})"
  | [] => .error s!"line {endLine}: the file ends where a value was expected"

/-- What is left after `Parser::args`, and the line of the bracket that closes them. -/
abbrev ArgsRead := List (String × Lit × Nat) × Nat × List Spanned

/-- `Parser::args`, with the arguments it has. -/
def args : Nat → List (String × Lit × Nat) → List Spanned → Except String ArgsRead
  | 0, _, _ => .error ""
  | fuel + 1, out, toks =>
    match toks with
    | (.rParen, l) :: rest => .ok (out, l, rest)
    | (.ident name, l) :: (.eq, _) :: rest => do
      let v ← value endLine rest
      if name ∈ out.map Prod.fst then
        .error s!"line {l}: `{name}` is given twice"
      else
        let out := out ++ [(name, v.1, l)]
        match v.2 with
        | (.comma, _) :: rest => args fuel out rest
        | (.rParen, l) :: rest => .ok (out, l, rest)
        | (_, l) :: _ => .error s!"line {l}: expected `,` or `)`"
        | [] => .error (endsInside endLine "call")
    | (_, l) :: _ =>
      .error s!"line {l}: arguments are named (`name = value`); a positional one is not read"
    | [] => .error (endsInside endLine "call")

end Parser

section Reading

/-- Starlark words that compute rather than state. -/
def KEYWORDS : List String :=
  ["if", "elif", "else", "for", "while", "def", "lambda", "return", "and", "or"]

/-- The minor of a GDL version. -/
def minor (v : String) : Option Nat :=
  let major := v.toList.takeWhile fun c => c ≠ '.'
  match v.toList.dropWhile fun c => c ≠ '.' with
  | '.' :: rest => if major = ['1'] then Rust.parseUnsigned (2 ^ 32 - 1) rest else none
  | _ => none

def readsVersion (v since : String) : Bool :=
  match minor v, minor since with
  | some m, some s => s ≤ m
  | _, _ => false

variable (file : String) (calls : List String) (since : String) (endLine : Nat)

def declarations : String := " or ".intercalate (calls.map fun c => s!"`{c}(...)`")

/-- What `read_call` has read, and the line of the last token it took. -/
structure Reading where
  version : Option String
  call : Option Call
  lastLine : Nat
deriving DecidableEq

/-- `gdl_version = "…"`, after the `=`. -/
def readVersion (r : Reading) (name : String) (line : Nat) (rest : List Spanned) :
    Except String (Reading × List Spanned) :=
  if name ≠ "gdl_version" then
    .error s!"line {line}: `{name} = …`; the only assignment is `gdl_version`"
  else if r.version.isSome then
    .error s!"line {line}: `gdl_version` is set twice"
  else
    match rest with
    | (.str v, l) :: rest => .ok ({ r with version := some v, lastLine := l }, rest)
    | _ => .error s!"line {line}: `gdl_version` is a string"

/-- The one call, after the `(`. -/
def readDeclaration (r : Reading) (name : String) (line : Nat) (rest : List Spanned) :
    Except String (Reading × List Spanned) :=
  if name = "load" then
    .error s!"line {line}: `load()`; a {file} loads nothing"
  else if name ∉ calls then
    let declares := declarations calls
    .error s!"line {line}: `{name}()` is not what a {file} declares; it is {declares}"
  else
    match r.call with
    | some first =>
      let firstLine := first.line
      let firstName := first.name
      .error (s!"line {line}: a second declaration, `{name}()`; line {firstLine} already " ++
          s!"declared `{firstName}()`")
    | none => do
      let a ← args endLine (rest.length + 1) [] rest
      .ok ({ r with call := some ⟨name, a.1, line⟩, lastLine := a.2.1 }, a.2.2)

/-- One statement of `read_call`. -/
def readStatement (r : Reading) (tok : Tok) (line : Nat) (rest : List Spanned) :
    Except String (Reading × List Spanned) :=
  if line = r.lastLine then
    .error s!"line {line}: one statement per line"
  else
    match tok with
    | .ident name =>
      if name ∈ KEYWORDS then
        .error (s!"line {line}: `{name}`; a {file} is declarative, with no control flow or " ++
            "definitions")
      else
        match rest with
        | (.eq, _) :: rest => readVersion r name line rest
        | (.lParen, _) :: rest => readDeclaration file calls endLine r name line rest
        | _ =>
          .error (s!"line {line}: `{name}` alone; a statement is `gdl_version = \"{since}\"` " ++
              "or one call")
    | _ => .error s!"line {line}: a statement is `gdl_version = \"{since}\"` or one call"

/-- The loop of `read_call`. -/
def readStatements : Nat → Reading → List Spanned → Except String Reading
  | 0, _, _ => .error ""
  | _ + 1, r, [] => .ok r
  | fuel + 1, r, (tok, line) :: rest => do
    let next ← readStatement file calls since endLine r tok line rest
    readStatements fuel next.1 next.2

/-- What `read_call` says of what it has read. -/
def accept (r : Reading) : Except String Call :=
  match r.version with
  | some v =>
    if readsVersion v since then
      match r.call with
      | some call => .ok call
      | none =>
        let declares := declarations calls
        .error s!"no declaration; a {file} makes one call, {declares}"
    else
      .error (s!"gdl_version = \"{v}\"; this reads \"{since}\", where {file} was introduced, " ++
          "and later 1.x")
  | none => .error s!"no `gdl_version = \"{since}\"` line"

def readCall (src : String) : Except String Call := do
  let toks ← lex file src
  let endLine := (toks.getLast?.map Prod.snd).getD 1
  let r ← readStatements file calls since endLine (toks.length + 1) ⟨none, none, 0⟩ toks
  accept file calls since r

end Reading

example :
    readCall "service.gdl" ["service"] "1.6"
        "gdl_version = \"1.6\"\n# a comment\nservice(\n  on = True,\n  port = 80,\n)\n" =
      .ok ⟨"service", [("on", .bool true, 4), ("port", .int 80, 5)], 3⟩ := by
  decide +kernel

end ComponentsCatalog
end StudioWeb
