import Mathlib.Data.List.Basic

/-!
# JSON values and their text

`render` is `JSON.stringify` and `parse` is `JSON.parse`, on values whose numbers
are whole: a number written with a fraction or an exponent is kept as its token,
which is all a reader of whole numbers needs of it.

A string is a sequence of Unicode scalar values.  An escape of a surrogate that
has no partner stands for no scalar value and reads as U+FFFD.

A parser takes a value off the front of a text, or fails; the parsers are put together with
`andThen` from the ones that take a single character.  The one of JSON is a recursion on a count of nested values; the length of the text is
always enough of it.
-/

namespace StudioWeb

universe u v

/-- A parser takes a value off the front of a text. -/
abbrev TextParser (α : Type u) := List Char → Option (α × List Char)

namespace TextParser

variable {α : Type u} {β : Type v}

def andThen (p : TextParser α) (f : α → TextParser β) : TextParser β := fun text =>
  match p text with
  | none => none
  | some (a, rest) => f a rest

def done (a : α) : TextParser α := fun text => some (a, text)

def fail : TextParser α := fun _ => none

def isSpace (c : Char) : Bool := c == ' ' || c == '\t' || c == '\n' || c == '\r'

def skipSpace (text : List Char) : List Char := text.dropWhile isSpace

/-- The next character that is no white space. -/
def token : TextParser Char := fun text =>
  match skipSpace text with
  | [] => none
  | c :: rest => some (c, rest)

/-- A part that is there when the next character starts it. -/
def optional (starts : Char → Bool) (p : Char → TextParser α) (absent : α) : TextParser α
  | [] => some (absent, [])
  | c :: rest => if starts c then p c rest else some (absent, c :: rest)

/-- The characters up to the first one that fails a test. -/
def takeAll (test : Char → Bool) : TextParser (List Char) := fun text =>
  some (text.takeWhile test, text.dropWhile test)

def word : List Char → TextParser Unit
  | [], text => some ((), text)
  | _ :: _, [] => none
  | c :: cs, d :: rest => if d = c then word cs rest else none

end TextParser

namespace JsonText

/-- A JSON value. The fields of an object are in the order they are written. -/
inductive Json where
  | null
  | bool (value : Bool)
  | int (value : Int)
  | real (token : List Char)
  | str (text : String)
  | arr (items : List Json)
  | obj (fields : List (String × Json))

mutual

/-- Two values are the same. -/
def Json.same : Json → Json → Bool
  | .null, .null => true
  | .bool x, .bool y => x == y
  | .int x, .int y => x == y
  | .real x, .real y => x == y
  | .str x, .str y => x == y
  | .arr xs, .arr ys => sameItems xs ys
  | .obj xs, .obj ys => sameFields xs ys
  | _, _ => false

def sameItems : List Json → List Json → Bool
  | [], [] => true
  | x :: xs, y :: ys => x.same y && sameItems xs ys
  | _, _ => false

def sameFields : List (String × Json) → List (String × Json) → Bool
  | [], [] => true
  | (k, x) :: xs, (l, y) :: ys => k == l && x.same y && sameFields xs ys
  | _, _ => false

end

mutual

theorem Json.same_iff : ∀ a b : Json, a.same b = true ↔ a = b
  | .arr xs, .arr ys => by
    rw [Json.same, sameItems_iff xs ys, Json.arr.injEq]
  | .obj xs, .obj ys => by
    rw [Json.same, sameFields_iff xs ys, Json.obj.injEq]
  | .null, b => by cases b <;> simp [Json.same]
  | .bool _, b => by cases b <;> simp [Json.same]
  | .int _, b => by cases b <;> simp [Json.same]
  | .real _, b => by cases b <;> simp [Json.same]
  | .str _, b => by cases b <;> simp [Json.same]
  | .arr _, .null | .arr _, .bool _ | .arr _, .int _ | .arr _, .real _ | .arr _, .str _
  | .arr _, .obj _ => by simp [Json.same]
  | .obj _, .null | .obj _, .bool _ | .obj _, .int _ | .obj _, .real _ | .obj _, .str _
  | .obj _, .arr _ => by simp [Json.same]

theorem sameItems_iff : ∀ xs ys : List Json, sameItems xs ys = true ↔ xs = ys
  | [], [] => by simp [sameItems]
  | [], _ :: _ => by simp [sameItems]
  | _ :: _, [] => by simp [sameItems]
  | x :: xs, y :: ys => by
    rw [sameItems, Bool.and_eq_true, Json.same_iff x y, sameItems_iff xs ys, List.cons.injEq]

theorem sameFields_iff :
    ∀ xs ys : List (String × Json), sameFields xs ys = true ↔ xs = ys
  | [], [] => by simp [sameFields]
  | [], _ :: _ => by simp [sameFields]
  | _ :: _, [] => by simp [sameFields]
  | (k, x) :: xs, (l, y) :: ys => by
    rw [sameFields, Bool.and_eq_true, Bool.and_eq_true, beq_iff_eq, Json.same_iff x y,
      sameFields_iff xs ys, List.cons.injEq, Prod.mk.injEq]

end

instance : DecidableEq Json :=
  fun a b => decidable_of_iff _ (Json.same_iff a b)

def hexDigit (n : Nat) : Char :=
  if n < 10 then Char.ofNat (48 + n) else Char.ofNat (87 + n)

/-- The characters that a letter after a backslash stands for. -/
def escapes : List (Char × Char) :=
  [('\x22', '\x22'), ('\x5c', '\x5c'), ('b', '\x08'), ('f', '\x0c'), ('n', '\n'),
    ('r', '\r'), ('t', '\t')]

/-- One character of a string literal. -/
def escapeChar (c : Char) : List Char :=
  match escapes.find? (fun e => e.2 = c) with
  | some (letter, _) => ['\x5c', letter]
  | none =>
    if c.toNat < 32 then
      ['\x5c', 'u', '0', '0', hexDigit (c.toNat / 16), hexDigit (c.toNat % 16)]
    else
      [c]

def renderString (text : String) : List Char :=
  '\x22' :: (text.toList.flatMap escapeChar ++ ['\x22'])

def renderInt (value : Int) : List Char :=
  if value < 0 then
    '-' :: Nat.toDigits 10 value.natAbs
  else
    Nat.toDigits 10 value.natAbs

mutual

/-- `JSON.stringify`. -/
def render : Json → List Char
  | .null => "null".toList
  | .bool true => "true".toList
  | .bool false => "false".toList
  | .int value => renderInt value
  | .real token => token
  | .str text => renderString text
  | .arr items => '[' :: renderItems items
  | .obj fields => '\x7b' :: renderFields fields

/-- The items of an array and its closing bracket. -/
def renderItems : List Json → List Char
  | [] => [']']
  | [v] => render v ++ [']']
  | v :: w :: rest => render v ++ ',' :: renderItems (w :: rest)

/-- The fields of an object and its closing brace. -/
def renderFields : List (String × Json) → List Char
  | [] => ['\x7d']
  | [(k, v)] => renderString k ++ ':' :: (render v ++ ['\x7d'])
  | (k, v) :: f :: rest =>
    renderString k ++ ':' :: (render v ++ ',' :: renderFields (f :: rest))

end

section Parse

open TextParser

def hexValue (c : Char) : Option Nat :=
  if c.isDigit then
    some (c.toNat - 48)
  else if 'a' ≤ c ∧ c ≤ 'f' then
    some (c.toNat - 87)
  else if 'A' ≤ c ∧ c ≤ 'F' then
    some (c.toNat - 55)
  else
    none

/-- The code point of a letter after a backslash; a slash may stand there too. -/
def unescape (c : Char) : Option Nat :=
  if c = '/' then
    some 47
  else
    (escapes.find? (fun e => e.1 = c)).map (fun e => e.2.toNat)

/-- Where a reader is in a string literal: at a character, after a backslash, or
before the last `left` digits of an escaped unit. -/
inductive StringState where
  | plain
  | escaped
  | hex (left value : Nat)
deriving DecidableEq

/-- One more unit at the front. -/
def prependUnit (unit : Nat) (r : Option (List Nat × List Char)) : Option (List Nat × List Char) :=
  r.map (fun p => (unit :: p.1, p.2))

/-- The rest of a string literal, as the code points and surrogates it names. -/
def stringUnits : StringState → TextParser (List Nat)
  | _, [] => none
  | .plain, c :: rest =>
    if c = '\x22' then
      some ([], rest)
    else if c = '\x5c' then
      stringUnits .escaped rest
    else if c.toNat < 32 then
      none
    else
      prependUnit c.toNat (stringUnits .plain rest)
  | .escaped, c :: rest =>
    if c = 'u' then
      stringUnits (.hex 4 0) rest
    else
      match unescape c with
      | none => none
      | some unit => prependUnit unit (stringUnits .plain rest)
  | .hex left value, c :: rest =>
    match hexValue c with
    | none => none
    | some digit =>
      if left = 1 then
        prependUnit (value * 16 + digit) (stringUnits .plain rest)
      else
        stringUnits (.hex (left - 1) (value * 16 + digit)) rest

def isHighSurrogate (n : Nat) : Bool := 0xD800 ≤ n && n < 0xDC00

def isLowSurrogate (n : Nat) : Bool := 0xDC00 ≤ n && n < 0xE000

/-- U+FFFD. -/
def replacement : Char := Char.ofNat 0xFFFD

/-- A code point; a surrogate is no code point. -/
def charOfUnit (n : Nat) : Char :=
  if isHighSurrogate n || isLowSurrogate n then replacement else Char.ofNat n

/-- The characters of a sequence of code points and surrogates. -/
def joinSurrogates : List Nat → List Char
  | [] => []
  | [n] => [charOfUnit n]
  | n :: m :: rest =>
    if isHighSurrogate n && isLowSurrogate m then
      Char.ofNat (0x10000 + (n - 0xD800) * 1024 + (m - 0xDC00)) ::
        joinSurrogates rest
    else
      charOfUnit n :: joinSurrogates (m :: rest)

/-- A string literal after its opening quote. -/
def stringText : TextParser String :=
  (stringUnits .plain).andThen fun units =>
    done (String.ofList (joinSurrogates units))

def someDigits : TextParser (List Char) :=
  (takeAll Char.isDigit).andThen fun ds => if ds = [] then fail else done ds

/-- The integer part of a number from its first digit: no leading zeros. -/
def wholePart (first : Char) : TextParser (List Char) :=
  if first = '0' then
    done ['0']
  else if first.isDigit then
    (takeAll Char.isDigit).andThen fun ds => done (first :: ds)
  else
    fail

def fractionPart : TextParser (List Char) :=
  optional (fun c => c = '.') (fun c => someDigits.andThen fun ds => done (c :: ds)) []

def exponentPart : TextParser (List Char) :=
  optional (fun c => c = 'e' || c = 'E') (fun c =>
      (optional (fun d => d = '+' || d = '-') (fun d => done [d]) []).andThen
        fun sign => someDigits.andThen fun ds => done (c :: (sign ++ ds))) []

/-- The value of a number: whole unless it has a fraction or an exponent, or is
the negative zero. -/
def numberOf (minus : Bool) (whole fraction exponent : List Char) : Json :=
  if fraction = [] ∧ exponent = [] ∧ ¬ (minus ∧ whole = ['0']) then
    let n : Int := Nat.ofDigitChars 10 whole 0
    .int (if minus then -n else n)
  else
    .real ((if minus then ['-'] else []) ++ whole ++ fraction ++ exponent)

/-- A number without its sign, from its first digit. -/
def unsignedAt (minus : Bool) (first : Char) : TextParser Json :=
  (wholePart first).andThen fun whole =>
    fractionPart.andThen fun fraction =>
      exponentPart.andThen fun exponent =>
        done (numberOf minus whole fraction exponent)

def anyChar : TextParser Char
  | [] => none
  | c :: rest => some (c, rest)

def numberAt (first : Char) : TextParser Json :=
  if first = '-' then
    anyChar.andThen fun c => unsignedAt true c
  else
    unsignedAt false first

mutual

def valueAt : Nat → Char → TextParser Json
  | 0, _ => fail
  | fuel + 1, c =>
    if c = '\x22' then
      stringText.andThen fun text => done (.str text)
    else if c = '[' then
      token.andThen fun d =>
        if d = ']' then
          done (.arr [])
        else
          (itemsAt fuel d).andThen fun items => done (.arr items)
    else if c = '\x7b' then
      token.andThen fun d =>
        if d = '\x7d' then
          done (.obj [])
        else
          (fieldsAt fuel d).andThen fun fields => done (.obj fields)
    else if c = 'n' then
      (word "ull".toList).andThen fun _ => done .null
    else if c = 't' then
      (word "rue".toList).andThen fun _ => done (.bool true)
    else if c = 'f' then
      (word "alse".toList).andThen fun _ => done (.bool false)
    else
      numberAt c

/-- One or more items, from the first character of the first one, and the closing
bracket. -/
def itemsAt : Nat → Char → TextParser (List Json)
  | 0, _ => fail
  | fuel + 1, c =>
    (valueAt fuel c).andThen fun item =>
      token.andThen fun d =>
        if d = ']' then
          done [item]
        else if d = ',' then
          token.andThen fun e =>
            (itemsAt fuel e).andThen fun items => done (item :: items)
        else
          fail

/-- One or more fields, from the quote of the first key, and the closing brace. -/
def fieldsAt : Nat → Char → TextParser (List (String × Json))
  | 0, _ => fail
  | fuel + 1, c =>
    if c = '\x22' then
      stringText.andThen fun key =>
        token.andThen fun d =>
          if d = ':' then
            token.andThen fun e =>
              (valueAt fuel e).andThen fun value =>
                token.andThen fun g =>
                  if g = '\x7d' then
                    done [(key, value)]
                  else if g = ',' then
                    token.andThen fun h =>
                      (fieldsAt fuel h).andThen fun fields =>
                        done ((key, value) :: fields)
                  else
                    fail
          else
            fail
    else
      fail

end

/-- `JSON.parse`; `none` where it throws. -/
def parse (text : List Char) : Option Json :=
  match (token.andThen (valueAt (text.length + 1))) text with
  | some (value, rest) => if skipSpace rest = [] then some value else none
  | none => none

end Parse

end JsonText
end StudioWeb
