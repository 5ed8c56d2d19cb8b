import Mathlib.Data.List.Basic

/-!
# Starlark files that state and do not compute

The part of Starlark that a file of literals is written in: words, one-line strings, whole
numbers, lists, dicts, assignments of a value and calls with named arguments.  A text is
scanned into tokens, each with its line and its indentation; the tokens fall into logical
lines, which end where a line breaks outside brackets; every logical line is a statement and
none is indented; and what the statements assign and call is what the file does.  The words
that the language keeps for itself are a parameter.

Whatever is outside this part, and whatever Starlark refuses, gives `none`.
-/

namespace StudioWeb
namespace Starlark

inductive Token where
  | word (w : String)
  | str (s : String)
  | int (digits : List Char)
  | lParen
  | rParen
  | lBracket
  | rBracket
  | lBrace
  | rBrace
  | colon
  | comma
  | assign
deriving DecidableEq

/-- A token, the line it is on, and the blanks that its line begins with where it is the
first of its line. -/
structure Placed where
  tok : Token
  line : Nat
  indent : Nat
deriving DecidableEq

def mark : Char → Option Token
  | '(' => some .lParen
  | ')' => some .rParen
  | '[' => some .lBracket
  | ']' => some .rBracket
  | '{' => some .lBrace
  | '}' => some .rBrace
  | ':' => some .colon
  | ',' => some .comma
  | _ => none

def isWordStart (c : Char) : Bool := c.isAlpha || c = '_'

def isWordChar (c : Char) : Bool := c.isAlphanum || c = '_'

def isQuote (c : Char) : Bool := c = '"' || c = '\''

def escape : Char → Option Char
  | '\\' => some '\\'
  | '"' => some '"'
  | '\'' => some '\''
  | 'n' => some '\n'
  | 't' => some '\t'
  | _ => none

/-- A string after its opening quote: what it says, and the text after its closing quote. -/
def stringBody (quote : Char) : List Char → Option (List Char × List Char)
  | [] => none
  | c :: rest =>
    if c = '\n' then
      none
    else if c = quote then
      some ([], rest)
    else if c = '\\' then
      match rest with
      | [] => none
      | e :: rest =>
        (escape e).bind fun said => (stringBody quote rest).map fun r => (said :: r.1, r.2)
    else
      (stringBody quote rest).map fun r => (c :: r.1, r.2)

/-- A plain string; one in triple quotes is outside the part. -/
def stringToken (quote : Char) (rest : List Char) : Option (Token × List Char) :=
  if rest.head? = some quote && rest.tail.head? = some quote then
    none
  else
    (stringBody quote rest).map fun r => (.str (String.ofList r.1), r.2)

/-- A whole number; one with a fraction, an exponent or a base is outside the part. -/
def intToken (c : Char) (rest : List Char) : Option (Token × List Char) :=
  let after := rest.dropWhile Char.isDigit
  if after.head?.any fun c => c.isAlphanum || c = '.' || c = '_' then
    none
  else
    some (.int (c :: rest.takeWhile Char.isDigit), after)

/-- A word; a string with a prefix is outside the part. -/
def wordToken (c : Char) (rest : List Char) : Option (Token × List Char) :=
  let after := rest.dropWhile isWordChar
  if after.head?.any isQuote then
    none
  else
    some (.word (String.ofList (c :: rest.takeWhile isWordChar)), after)

/-- The token that a text begins with. -/
def nextToken (c : Char) (rest : List Char) : Option (Token × List Char) :=
  match mark c with
  | some tok => some (tok, rest)
  | none =>
    if c = '=' then
      if rest.head? = some '=' then none else some (.assign, rest)
    else if isQuote c then
      stringToken c rest
    else if c.isDigit then
      intToken c rest
    else if isWordStart c then
      wordToken c rest
    else
      none

/-- The tokens of a text, where a line has `indent` blanks so far; the number of steps is
bounded by `fuel`. -/
def scan : Nat → List Char → Nat → Nat → Option (List Placed)
  | 0, _, _, _ => none
  | _ + 1, [], _, _ => some []
  | fuel + 1, c :: rest, line, indent =>
    if c = '\n' then
      scan fuel rest (line + 1) 0
    else if c = ' ' || c = '\t' then
      scan fuel rest line (indent + 1)
    else if c = '\r' then
      scan fuel rest line indent
    else if c = '#' then
      scan fuel (rest.dropWhile fun c => c ≠ '\n') line indent
    else
      (nextToken c rest).bind fun t =>
        (scan fuel t.2 line indent).map fun placed => ⟨t.1, line, indent⟩ :: placed

/-- The tokens of a text from its first line on. -/
def tokens (src : List Char) : Option (List Placed) := scan (src.length + 1) src 1 0

/-- The language takes no number with a leading zero, and no reserved word as a name. -/
def Token.isLegal (reserved : List String) : Token → Bool
  | .int digits => digits.head? ≠ some '0' || digits.length = 1
  | .word w => w ∉ reserved
  | _ => true

/-- The brackets that are open after a token. -/
def depthAfter (depth : Nat) : Token → Nat
  | .lParen => depth + 1
  | .lBracket => depth + 1
  | .lBrace => depth + 1
  | .rParen => depth - 1
  | .rBracket => depth - 1
  | .rBrace => depth - 1
  | _ => depth

/-- What is left of the logical line that is being read, and the lines after it. -/
def breakLines : Nat → Nat → List Placed → List Placed × List (List Placed)
  | _, _, [] => ([], [])
  | depth, line, p :: rest =>
    let after := breakLines (depthAfter depth p.tok) p.line rest
    if depth = 0 && p.line ≠ line then
      ([], (p :: after.1) :: after.2)
    else
      (p :: after.1, after.2)

/-- Whether a statement cannot end with a token. -/
def Token.goesOn : Token → Bool
  | .word _ => true
  | .assign => true
  | _ => false

/-- Outside brackets a line is not indented, and does not end with a word or a `=`. -/
def WellLaid : Nat → Nat → List Placed → Prop
  | _, _, [] => True
  | depth, line, p :: rest =>
    (depth = 0 → p.line ≠ line → p.indent = 0) ∧ (depthAfter depth p.tok = 0 → p.tok.goesOn = true →
        ∀ q ∈ rest.head?, q.line = p.line) ∧
      WellLaid (depthAfter depth p.tok) p.line rest

instance decidableWellLaid :
    ∀ (depth line : Nat) (placed : List Placed), Decidable (WellLaid depth line placed)
  | _, _, [] => isTrue trivial
  | depth, _, p :: rest =>
    have := decidableWellLaid (depthAfter depth p.tok) p.line rest
    inferInstanceAs (Decidable (_ ∧ _ ∧ _))

/-- The brackets open after some tokens, where one is open before each of them. -/
def depths : Nat → List Placed → Option Nat
  | depth, [] => some depth
  | 0, _ :: _ => none
  | depth + 1, p :: rest => depths (depthAfter (depth + 1) p.tok) rest

def lastLine : Nat → List Placed → Nat
  | line, [] => line
  | _, p :: rest => lastLine p.line rest

theorem lastLine_append (line : Nat) (first second : List Placed) :
    lastLine line (first ++ second) = lastLine (lastLine line first) second := by
  induction first generalizing line with
  | nil => rfl
  | cons p _ ih => exact ih p.line

theorem depths_append (depth : Nat) (first second : List Placed) :
    depths depth (first ++ second) = (depths depth first).bind fun d => depths d second := by
  induction first generalizing depth with
  | nil => rfl
  | cons p _ ih =>
    cases depth with
    | zero => rfl
    | succ depth => exact ih (depthAfter (depth + 1) p.tok)

/-- Brackets hold a logical line together. -/
theorem breakLines_append {depth after : Nat} {line : Nat} {inner rest : List Placed}
    (h : depths depth inner = some after) :
    breakLines depth line (inner ++ rest) =
      (inner ++ (breakLines after (lastLine line inner) rest).1,
        (breakLines after (lastLine line inner) rest).2) := by
  induction inner generalizing depth line with
  | nil =>
    cases h
    rfl
  | cons p _ ih =>
    cases depth with
    | zero => cases h
    | succ depth =>
      have hrest := @ih (depthAfter (depth + 1) p.tok) p.line h
      rw [List.cons_append]
      simp only [breakLines, lastLine]
      rw [hrest]
      rfl

theorem goesOn_of_closes {depth : Nat} {tok : Token} (h : depthAfter (depth + 1) tok = 0) :
    tok.goesOn = false := by
  cases tok <;> first | rfl | cases h

/-- Brackets are free in their layout. -/
theorem wellLaid_append {depth after : Nat} {line : Nat} {inner rest : List Placed}
    (h : depths depth inner = some after) :
    WellLaid depth line (inner ++ rest) ↔ WellLaid after (lastLine line inner) rest := by
  induction inner generalizing depth line with
  | nil =>
    cases h
    rfl
  | cons p _ ih =>
    cases depth with
    | zero => cases h
    | succ depth =>
      rw [List.cons_append, lastLine, ← @ih (depthAfter (depth + 1) p.tok) p.line h]
      constructor
      · exact fun hlaid => hlaid.2.2
      · intro hlaid
        refine ⟨fun hzero => absurd hzero (Nat.succ_ne_zero depth), ?_, hlaid⟩
        intro hclosed hgoes
        rw [goesOn_of_closes hclosed] at hgoes
        cases hgoes

/-- What a literal is. -/
inductive Value where
  | bool (b : Bool)
  | none
  | str (s : String)
  | int (n : Nat)
  | list (items : List Value)
  | dict (entries : List (String × Value))

inductive Statement where
  | assign (name : String) (value : Value)
  | call (name : String) (args : List (String × Value))

def itemEnd (close : Token) : List Token → Option (Bool × List Token)
  | .comma :: rest => some (false, rest)
  | tok :: rest => if tok = close then some (true, rest) else none
  | [] => none

mutual

def value : Nat → List Token → Option (Value × List Token)
  | 0, _ => none
  | fuel + 1, toks =>
    match toks with
    | .word w :: rest =>
      if w = "True" then some (.bool true, rest)
      else if w = "False" then some (.bool false, rest)
      else if w = "None" then some (.none, rest)
      else none
    | .str s :: rest => some (.str s, rest)
    | .int digits :: rest => some (.int (Nat.ofDigitChars 10 digits 0), rest)
    | .lBracket :: rest => (items fuel rest).map fun r => (.list r.1, r.2)
    | .lBrace :: rest => (entries fuel rest).bind fun r =>
      if (r.1.map Prod.fst).Nodup then some (.dict r.1, r.2) else none
    | _ => none

def items : Nat → List Token → Option (List Value × List Token)
  | 0, _ => none
  | fuel + 1, toks =>
    match toks with
    | .rBracket :: rest => some ([], rest)
    | toks =>
      (value fuel toks).bind fun v =>
        (itemEnd .rBracket v.2).bind fun stop =>
          if stop.1 then
            some ([v.1], stop.2)
          else
            (items fuel stop.2).map fun r => (v.1 :: r.1, r.2)

def entries : Nat → List Token → Option (List (String × Value) × List Token)
  | 0, _ => none
  | fuel + 1, toks =>
    match toks with
    | .rBrace :: rest => some ([], rest)
    | .str key :: .colon :: rest =>
      (value fuel rest).bind fun v =>
        (itemEnd .rBrace v.2).bind fun stop =>
          if stop.1 then
            some ([(key, v.1)], stop.2)
          else
            (entries fuel stop.2).map fun r => ((key, v.1) :: r.1, r.2)
    | _ => none

end

/-- The named arguments of a call, after its bracket. -/
def arguments : Nat → List Token → Option (List (String × Value) × List Token)
  | 0, _ => none
  | fuel + 1, toks =>
    match toks with
    | .rParen :: rest => some ([], rest)
    | .word name :: .assign :: rest =>
      (value fuel rest).bind fun v =>
        (itemEnd .rParen v.2).bind fun stop =>
          if stop.1 then
            some ([(name, v.1)], stop.2)
          else
            (arguments fuel stop.2).map fun r => ((name, v.1) :: r.1, r.2)
    | _ => none

/-- The statement that a logical line is. -/
def statement (toks : List Token) : Option Statement :=
  match toks with
  | .word name :: .assign :: rest =>
    (value (rest.length + 1) rest).bind fun v =>
      if v.2 = [] then some (.assign name v.1) else none
  | .word name :: .lParen :: rest =>
    (arguments (rest.length + 1) rest).bind fun r =>
      if r.2 = [] && (r.1.map Prod.fst).Nodup then some (.call name r.1) else none
  | _ => none

def lineStatement (line : List Placed) : Option Statement :=
  if line.head?.all fun p => p.indent = 0 then statement (line.map Placed.tok) else none

def statementsFrom (line : Nat) (placed : List Placed) : Option (List Statement) :=
  (breakLines 0 line placed).2.mapM lineStatement

/-- The statements of a text; no token is on a line 0. -/
def statements (placed : List Placed) : Option (List Statement) := statementsFrom 0 placed

section Layouts

variable {p q v : Placed} {name : String} {together : Prop} {front back inner : List Placed}
variable {line : Nat}

/-- How the tokens of a statement fall into logical lines: they are one when what belongs
together is on one line, and they are no statement otherwise. -/
structure LaidBy (together : Prop) (p : Placed) (front : List Placed) : Prop where
  starts : front.head? = some p
  laid : ∀ line back, p.line ≠ line → (WellLaid 0 line (front ++ back) ↔
      (p.indent = 0 ∧ together) ∧ WellLaid 0 (lastLine line front) back)
  whole : together → ∀ line back, p.line ≠ line → breakLines 0 line (front ++ back) =
      ([], (front ++ (breakLines 0 (lastLine line front) back).1) ::
        (breakLines 0 (lastLine line front) back).2)
  broken : ¬ together → ∀ line back, p.line ≠ line →
    ∃ part rest, breakLines 0 line (front ++ back) = ([], part :: rest) ∧
      statement (part.map Placed.tok) = none

theorem laid_assign {s : String} (hp : p.tok = .word name) (hq : q.tok = .assign)
    (hv : v.tok = .str s) :
    LaidBy (q.line = p.line ∧ v.line = q.line) p [p, q, v] where
  starts := rfl
  laid := by
    intro line back hline
    simp only [List.cons_append, List.nil_append, WellLaid, hp, hq, hv, depthAfter,
      Token.goesOn, List.head?_cons, Option.mem_some_iff, lastLine]
    constructor
    · rintro ⟨hindent, hpq, -, hqv, -, -, hback⟩
      exact ⟨⟨hindent trivial hline, hpq trivial trivial q rfl, hqv trivial trivial v rfl⟩, hback⟩
    · rintro ⟨⟨hindent, hpq, hqv⟩, hback⟩
      refine ⟨fun _ _ => hindent, ?_, fun _ hne => absurd hpq hne, ?_,
        fun _ hne => absurd hqv hne, nofun, hback⟩
      · rintro - - _ rfl
        exact hpq
      · rintro - - _ rfl
        exact hqv
  whole := by
    rintro ⟨hpq, hqv⟩ line back hline
    simp [breakLines, hp, hq, hv, depthAfter, lastLine, hline, hpq, hqv]
  broken := by
    intro hnot line back hline
    by_cases hpq : q.line = p.line
    · have hqv : v.line ≠ p.line := fun hqv => hnot ⟨hpq, hqv.trans hpq.symm⟩
      refine ⟨[p, q], (breakLines 0 q.line (v :: back)).2, ?_, ?_⟩
      · simp [breakLines, hp, hq, depthAfter, hline, hpq, hqv]
      · simp [statement, hp, hq, value]
    · refine ⟨[p], (breakLines 0 p.line (q :: v :: back)).2, ?_, ?_⟩
      · simp [breakLines, hp, depthAfter, hline, hpq]
      · simp [statement, hp]

theorem laid_call (hp : p.tok = .word name) (hq : q.tok = .lParen)
    (hinner : depths 1 inner = some 0) :
    LaidBy (q.line = p.line) p (p :: q :: inner) where
  starts := rfl
  laid := by
    intro line back hline
    simp only [List.cons_append, WellLaid, hp, hq, depthAfter, Token.goesOn, List.head?_cons,
      Option.mem_some_iff, lastLine]
    rw [wellLaid_append hinner]
    constructor
    · rintro ⟨hindent, hpq, -, -, hback⟩
      exact ⟨⟨hindent trivial hline, hpq trivial trivial q rfl⟩, hback⟩
    · rintro ⟨⟨hindent, hpq⟩, hback⟩
      refine ⟨fun _ _ => hindent, ?_, fun _ hne => absurd hpq hne, nofun, hback⟩
      rintro - - _ rfl
      exact hpq
  whole := by
    intro hpq line back hline
    simp [breakLines, hp, hq, depthAfter, lastLine, hline, hpq, breakLines_append hinner]
  broken := by
    intro hpq line back hline
    refine ⟨[p], (breakLines 0 p.line (q :: (inner ++ back))).2, ?_, ?_⟩
    · simp [breakLines, hp, depthAfter, hline, hpq]
    · simp [statement, hp]

/-- A statement that is laid out well, and the statements after it. -/
theorem statementsFrom_whole {st : Statement} (h : LaidBy together p front) (hline : p.line ≠ line)
    (hindent : p.indent = 0) (htogether : together)
    (hback : (breakLines 0 (lastLine line front) back).1 = [])
    (hst : statement (front.map Placed.tok) = some st) :
    statementsFrom line (front ++ back) =
      (statementsFrom (lastLine line front) back).map (st :: ·) := by
  have hfirst : lineStatement front = some st := by
    unfold lineStatement
    rw [h.starts, if_pos (by simp [hindent]), hst]
  unfold statementsFrom
  rw [h.whole htogether line back hline, hback, List.append_nil]
  rw [List.mapM_cons, hfirst]
  cases (breakLines 0 (lastLine line front) back).2.mapM lineStatement <;> rfl

/-- Where one statement is not laid out well, the text has none. -/
theorem statementsFrom_none (h : LaidBy together p front) (hline : p.line ≠ line)
    (hnot : ¬ (p.indent = 0 ∧ together))
    (hback : (breakLines 0 (lastLine line front) back).1 = []) :
    statementsFrom line (front ++ back) = none := by
  by_cases htogether : together
  · have hindent : p.indent ≠ 0 := fun hindent => hnot ⟨hindent, htogether⟩
    have hfirst : lineStatement front = none := by
      unfold lineStatement
      rw [h.starts, if_neg (by simp [hindent])]
    unfold statementsFrom
    rw [h.whole htogether line back hline, hback, List.append_nil, List.mapM_cons, hfirst]
    rfl
  · obtain ⟨part, rest, hlines, hpart⟩ := h.broken htogether line back hline
    have hfirst : lineStatement part = none := by
      unfold lineStatement
      rw [hpart, ite_self]
    unfold statementsFrom
    rw [hlines, List.mapM_cons, hfirst]
    rfl

end Layouts

/-- What a file has assigned and called. -/
structure Effects where
  assigned : List (String × Value)
  called : List (String × List (String × Value))

def Effects.add (e : Effects) : Statement → Effects
  | .assign name v => { e with assigned := e.assigned ++ [(name, v)] }
  | .call name args => { e with called := e.called ++ [(name, args)] }

/-- What no file can call: the constants of the language. -/
def CONSTANTS : List String := ["True", "False", "None"]

/-- A name is assigned once, and what is called is no constant and nothing that the file
itself assigns. -/
def Effects.isSound (e : Effects) : Bool :=
  (e.assigned.map Prod.fst).Nodup &&
    e.called.all fun c => c.1 ∉ CONSTANTS && c.1 ∉ e.assigned.map Prod.fst

/-- What a text does as a file. -/
def run (reserved : List String) (src : List Char) : Option Effects :=
  (tokens src).bind fun placed =>
    if placed.all fun p => p.tok.isLegal reserved then
      (statements placed).bind fun sts =>
        let effects := sts.foldl Effects.add ⟨[], []⟩
        if effects.isSound then some effects else none
    else
      none

end Starlark
end StudioWeb
