import Mathlib.Data.List.Basic

/-!
# What the Rust standard library does to text and to a failing call

A fallible call ends in a value, in an `Err` that carries a message, or in a
panic.  `Outcome` keeps the last two apart, because a caller sees an `Err` and
never sees a panic.

Text is a list of Unicode scalar values.  The functions below are the methods of
`str` the modelled code calls.  The case mappings list, beside the ASCII
letters, the characters whose full Unicode mapping contains an ASCII letter;
every other character is mapped to itself, since the callers only compare the
result with ASCII text.
-/

namespace StudioWeb
namespace Rust

/-- How a call can fail. -/
inductive Failure where
  | error (message : String)
  | panic
deriving DecidableEq

/-- The outcome of a fallible call. -/
abbrev Outcome (α : Type) := Except Failure α

/-- `Err(anyhow!(message))`. -/
def fail {α : Type} (message : String) : Outcome α := .error (.error message)

/-- An overflowing operation that the standard library or a crate panics on. -/
def overflow {α : Type} : Outcome α := .error .panic

theorem bind_eq_ok_iff {ε α β : Type} {x : Except ε α} {f : α → Except ε β} {b : β} :
    (x >>= f) = .ok b ↔ ∃ a, x = .ok a ∧ f a = .ok b := by
  cases x with
  | error =>
    constructor
    · intro h
      cases h
    · rintro ⟨a, h, _⟩
      cases h
  | ok a =>
    constructor
    · intro h
      exact ⟨a, rfl, h⟩
    · rintro ⟨a', h, hb⟩
      cases h
      exact hb

/-- Two integer-like results are decidable apart. -/
instance {α : Type} [DecidableEq α] : DecidableEq (Outcome α)
  | .ok a, .ok b =>
    decidable_of_iff (a = b) ⟨congrArg _, fun h => by cases h; rfl⟩
  | .error e, .error f =>
    decidable_of_iff (e = f) ⟨congrArg _, fun h => by cases h; rfl⟩
  | .ok _, .error _ => isFalse (by intro h; cases h)
  | .error _, .ok _ => isFalse (by intro h; cases h)

/-- The Unicode property `White_Space`. -/
def isWhitespace (c : Char) : Bool :=
  let n := c.toNat
  (9 ≤ n && n ≤ 13) || n == 0x20 || n == 0x85 || n == 0xA0 || n == 0x1680 ||
    (0x2000 ≤ n && n ≤ 0x200A) || n == 0x2028 || n == 0x2029 || n == 0x202F ||
    n == 0x205F || n == 0x3000

def trimStart (text : List Char) : List Char := text.dropWhile isWhitespace

def trimEnd (text : List Char) : List Char := (text.reverse.dropWhile isWhitespace).reverse

def trim (text : List Char) : List Char := trimEnd (trimStart text)

/-- `str::split_whitespace`, collected. -/
def splitWhitespace (text : List Char) : List (List Char) :=
  (text.splitOnP isWhitespace).filter (fun word => !word.isEmpty)

def splitOnce (delimiter : Char) (text : List Char) : Option (List Char × List Char) :=
  match text.dropWhile (fun c => c != delimiter) with
  | [] => none
  | _ :: rest => some (text.takeWhile (fun c => c != delimiter), rest)

/-- `char::to_lowercase`. -/
def lowercaseChar (c : Char) : List Char :=
  match c.toNat with
  | 0x0130 => ['i', Char.ofNat 0x0307]
  | 0x212A => ['k']
  | _ => [c.toLower]

def toLowercase (text : List Char) : List Char := text.flatMap lowercaseChar

/-- `char::to_uppercase`. -/
def uppercaseChar (c : Char) : List Char :=
  match c.toNat with
  | 0x00DF => ['S', 'S']
  | 0x0131 => ['I']
  | 0x0149 => [Char.ofNat 0x02BC, 'N']
  | 0x017F => ['S']
  | 0x01F0 => ['J', Char.ofNat 0x030C]
  | 0x1E96 => ['H', Char.ofNat 0x0331]
  | 0x1E97 => ['T', Char.ofNat 0x0308]
  | 0x1E98 => ['W', Char.ofNat 0x030A]
  | 0x1E99 => ['Y', Char.ofNat 0x030A]
  | 0x1E9A => ['A', Char.ofNat 0x02BE]
  | 0xFB00 => ['F', 'F']
  | 0xFB01 => ['F', 'I']
  | 0xFB02 => ['F', 'L']
  | 0xFB03 => ['F', 'F', 'I']
  | 0xFB04 => ['F', 'F', 'L']
  | 0xFB05 => ['S', 'T']
  | 0xFB06 => ['S', 'T']
  | _ => [c.toUpper]

def toUppercase (text : List Char) : List Char := text.flatMap uppercaseChar

/-- The value of a list of ASCII digits, most significant first. -/
def digitsValue (digits : List Char) : Nat := Nat.ofDigitChars 10 digits 0

/-- A nonempty list of ASCII digits whose value is at most `max`. -/
def parseDigits (max : Nat) (text : List Char) : Option Nat :=
  if text ≠ [] ∧ text.all Char.isDigit ∧ digitsValue text ≤ max then
    some (digitsValue text)
  else
    none

/-- `str::parse` at an unsigned type: one leading `+` is allowed. -/
def parseUnsigned (max : Nat) : List Char → Option Nat
  | '+' :: digits => parseDigits max digits
  | digits => parseDigits max digits

/-- Look a substring up at the front of a text. -/
def stripPrefix : List Char → List Char → Option (List Char)
  | [], text => some text
  | _ :: _, [] => none
  | p :: expected, c :: text => if p = c then stripPrefix expected text else none

end Rust
end StudioWeb
