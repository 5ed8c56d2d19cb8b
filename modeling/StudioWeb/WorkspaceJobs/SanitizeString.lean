import Mathlib.Data.List.Basic

/-!
# What the workspace journal redacts

`sanitizeString` of `workspace-job-journal.ts`: four global replacements, one
after the other, each a scan from the left that goes on after the text it
replaced.  A replacement is given by what its pattern matches at one place, with
the character before that place for the word boundary at its front.

The patterns are the source's.  Two of them may give text back: the last part of
`Bearer` ends at the last word boundary of its run, and the user part of a URL
ends at the last colon that a password and an `@` follow.
-/

namespace StudioWeb
namespace WorkspaceJobs

/-- `\s` of a JavaScript pattern. -/
def isJsSpace (c : Char) : Bool :=
  let n := c.toNat
  (9 ≤ n && n ≤ 13) || n == 0x20 || n == 0xA0 || n == 0x1680 ||
    (0x2000 ≤ n && n ≤ 0x200A) || n == 0x2028 || n == 0x2029 || n == 0x202F ||
    n == 0x205F || n == 0x3000 || n == 0xFEFF

/-- `String.prototype.trim`. -/
def jsTrim (text : List Char) : List Char :=
  ((text.dropWhile isJsSpace).reverse.dropWhile isJsSpace).reverse

def isAlnum (c : Char) : Bool :=
  c.isDigit || (65 ≤ c.toNat && c.toNat ≤ 90) || (97 ≤ c.toNat && c.toNat ≤ 122)

/-- `\w` of a JavaScript pattern. -/
def isWord (c : Char) : Bool := isAlnum c || c == '_'

/-- `\b` between two neighbours; there is none beyond an end of the text. -/
def isBoundary (before after : Option Char) : Bool := before.any isWord != after.any isWord

/-- A word at the front of a text, in any case of its ASCII letters. -/
def stripWord : List Char → List Char → Option (List Char × List Char)
  | [], text => some ([], text)
  | _ :: _, [] => none
  | w :: word, c :: text =>
    if c.toLower = w then
      (stripWord word text).map fun (found, rest) => (c :: found, rest)
    else
      none

/-- What a pattern found at one place: the text put in its stead, the last
character it took and the text after it. -/
structure Found where
  replacement : List Char
  last : Char
  rest : List Char

def redactedToken : List Char := "[redacted-token]".toList

/-- `[A-Za-z0-9]+` before a word boundary: its last character and the text
after it. -/
def stripAlnums (text : List Char) : Option (Char × List Char) :=
  let rest := text.dropWhile isAlnum
  match (text.takeWhile isAlnum).getLast? with
  | none => none
  | some last => if isBoundary (some last) rest.head? then some (last, rest) else none

/-- `gh[pousr]_[A-Za-z0-9]+` between word boundaries. -/
def findGithubToken (before : Option Char) (text : List Char) : Option Found :=
  match text with
  | g :: h :: kind :: low :: body =>
    if isBoundary before (some g) ∧ g = 'g' ∧ h = 'h' ∧
        kind ∈ ['p', 'o', 'u', 's', 'r'] ∧ low = '_' then
      (stripAlnums body).map fun (last, rest) => ⟨redactedToken, last, rest⟩
    else
      none
  | _ => none

def isBearerChar (c : Char) : Bool := isAlnum c || c == '.' || c == '_' || c == '-'

/-- The longest nonempty part of a run that ends at a word boundary. -/
def lastBoundary : List Char → Option (Char × List Char)
  | [] => none
  | c :: text =>
    if isBearerChar c then
      match lastBoundary text with
      | some found => some found
      | none => if isBoundary (some c) text.head? then some (c, text) else none
    else
      none

/-- `(Bearer)\s+[A-Za-z0-9._-]+` between word boundaries. -/
def findBearer (before : Option Char) (text : List Char) : Option Found :=
  if isBoundary before text.head? then
    match stripWord "bearer".toList text with
    | none => none
    | some (word, after) =>
      if after.takeWhile isJsSpace = [] then
        none
      else
        match lastBoundary (after.dropWhile isJsSpace) with
        | none => none
        | some (last, rest) => some ⟨word ++ ' ' :: redactedToken, last, rest⟩
  else
    none

def isSecretChar (c : Char) : Bool := !(isJsSpace c || c == ',' || c == ';')

/-- The first of the words that stands at the front of a text. -/
def stripOneOf : List (List Char) → List Char → Option (List Char × List Char)
  | [], _ => none
  | word :: words, text =>
    match stripWord word text with
    | some found => some found
    | none => stripOneOf words text

def secretWords : List (List Char) :=
  ["password".toList, "token".toList, "secret".toList, "authorization".toList]

/-- `(password|token|secret|authorization)` as a word, `\s*[:=]\s*` and
`([^\s,;]+)`. -/
def findSecret (before : Option Char) (text : List Char) : Option Found :=
  if isBoundary before text.head? then
    match stripOneOf secretWords text with
    | none => none
    | some (word, after) =>
      match after.dropWhile isJsSpace with
      | [] => none
      | sign :: value =>
        if sign = ':' ∨ sign = '=' then
          let secret := value.dropWhile isJsSpace
          match (secret.takeWhile isSecretChar).getLast? with
          | none => none
          | some last =>
            some ⟨word ++ "=[redacted]".toList, last, secret.dropWhile isSecretChar⟩
        else
          none
  else
    none

/-- `[^@\s]+@`: the text after it. -/
def stripPassword (text : List Char) : Option (List Char) :=
  let isPart := fun c => !(c == '@' || isJsSpace c)
  if text.takeWhile isPart = [] then
    none
  else
    match text.dropWhile isPart with
    | '@' :: rest => some rest
    | _ => none

/-- `[^/\s]*:[^@\s]+@`, the user part as long as it can be. -/
def stripUserInfo : List Char → Option (List Char)
  | [] => none
  | c :: text =>
    let here := if c = ':' then stripPassword text else none
    if c = '/' ∨ isJsSpace c then
      here
    else
      match stripUserInfo text with
      | some rest => some rest
      | none => here

/-- `https?:\/\/[^/\s]+:[^@\s]+@` at a word boundary. -/
def findCredentials (before : Option Char) (text : List Char) : Option Found :=
  if isBoundary before text.head? then
    match stripOneOf ["https://".toList, "http://".toList] text with
    | some (_, c :: after) =>
      if c = '/' ∨ isJsSpace c then
        none
      else
        (stripUserInfo after).map fun rest =>
          ⟨"https://[redacted]@".toList, '@', rest⟩
    | _ => none
  else
    none

/-- `replace` with a global pattern. -/
def replaceAll (find : Option Char → List Char → Option Found) :
    Nat → Option Char → List Char → List Char
  | 0, _, text => text
  | _ + 1, _, [] => []
  | fuel + 1, before, c :: text =>
    match find before (c :: text) with
    | some found =>
      found.replacement ++ replaceAll find fuel (some found.last) found.rest
    | none => c :: replaceAll find fuel (some c) text

/-- `replace` on a whole text. -/
def replaceIn (find : Option Char → List Char → Option Found) (text : List Char) : List Char :=
  replaceAll find text.length none text

def ReplacesByText (find : Option Char → List Char → Option Found) : Prop :=
  ∀ before text found, find before text = some found → found.replacement ≠ []

theorem replaceIn_ne_nil {find : Option Char → List Char → Option Found}
    (hfind : ReplacesByText find) {text : List Char} (h : text ≠ []) :
    replaceIn find text ≠ [] := by
  cases text with
  | nil =>
    exact absurd rfl h
  | cons c text =>
    simp only [replaceIn, List.length_cons, replaceAll]
    cases hfound : find none (c :: text) with
    | none =>
      simp
    | some found =>
      have hne := hfind _ _ found hfound
      simp [hne]

theorem redactedToken_ne_nil : redactedToken ≠ [] := by
  decide

theorem findGithubToken_replaces : ReplacesByText findGithubToken := by
  intro before text found h
  unfold findGithubToken at h
  split at h
  · next g h' kind low _ =>
    by_cases hc : isBoundary before (some g) = true ∧ g = 'g' ∧ h' = 'h' ∧
        kind ∈ ['p', 'o', 'u', 's', 'r'] ∧ low = '_'
    · rw [if_pos hc] at h
      obtain ⟨p, _, hp⟩ := Option.map_eq_some_iff.mp h
      rw [← hp]
      exact redactedToken_ne_nil
    · rw [if_neg hc] at h
      cases h
  · cases h

theorem findBearer_replaces : ReplacesByText findBearer := by
  intro before text found h
  unfold findBearer at h
  split_ifs at h
  split at h
  · cases h
  · split_ifs at h
    split at h
    · cases h
    · cases h
      simp

theorem findSecret_replaces : ReplacesByText findSecret := by
  intro before text found h
  unfold findSecret at h
  split_ifs at h
  split at h
  · cases h
  · split at h
    · cases h
    · split_ifs at h
      dsimp only at h
      split at h
      · cases h
      · cases h
        simp

theorem findCredentials_replaces : ReplacesByText findCredentials := by
  intro before text found h
  unfold findCredentials at h
  split_ifs at h
  split at h
  · split_ifs at h
    obtain ⟨rest, _, rfl⟩ := Option.map_eq_some_iff.mp h
    simp
  · cases h

def sanitizeString (value : String) : String :=
  String.ofList <| replaceIn findCredentials <| replaceIn findSecret <| replaceIn findBearer <|
          replaceIn findGithubToken value.toList

/-- A text that is not empty stays so. -/
theorem sanitizeString_ne_empty {value : String} (h : value ≠ "") : sanitizeString value ≠ "" := by
  have hvalue : value.toList ≠ [] := by
    simpa using h
  have htext :=
    replaceIn_ne_nil findCredentials_replaces <| replaceIn_ne_nil findSecret_replaces <|
        replaceIn_ne_nil findBearer_replaces <| replaceIn_ne_nil findGithubToken_replaces hvalue
  intro hempty
  rw [sanitizeString, String.ofList_eq_empty_iff] at hempty
  exact htext hempty

end WorkspaceJobs
end StudioWeb
