import Mathlib
import StudioWeb.ComponentsCatalog.SameEitherWay

/-!
# Passports written in the subset

A passport is written as its tokens with a blank after each, the version on one line and the
call on the next, and read back.
-/

namespace StudioWeb
namespace ComponentsCatalog

open List
open Rust (bind_eq_ok_iff)

/-- The escape of a character of a string. -/
def spellChar (c : Char) : List Char :=
  if c = '\\' then ['\\', '\\']
  else if c = '"' then ['\\', '"']
  else if c = '\n' then ['\\', 'n']
  else [c]

def spellString (s : String) : List Char := '"' :: (s.toList.flatMap spellChar ++ ['"'])

def spell : Tok → List Char
  | .ident w => w.toList
  | .str s => spellString s
  | .int n => Nat.toDigits 10 n
  | .lParen => ['(']
  | .rParen => [')']
  | .lBracket => ['[']
  | .rBracket => [']']
  | .lBrace => ['{']
  | .rBrace => ['}']
  | .colon => [':']
  | .comma => [',']
  | .eq => ['=']

/-- The text of some tokens, with a blank after each. -/
def spellAll (toks : List Tok) : List Char := toks.flatMap fun t => spell t ++ [' ']

def isName (w : String) : Bool :=
  match w.toList with
  | [] => false
  | c :: rest => (c.isAlpha || c = '_') && rest.all isWordChar

def DictValue.tok : DictValue → Tok
  | .str s => .str s
  | .int n => .int n

def itemToks (items : List String) : List Tok := items.flatMap fun s => [.str s, .comma]

def entryToks (entries : List (String × DictValue)) : List Tok :=
  entries.flatMap fun e => [.str e.1, .colon, e.2.tok, .comma]

/-- The tokens of a literal; an item has a comma after it. -/
def Lit.toks : Lit → List Tok
  | .bool true => [.ident "True"]
  | .bool false => [.ident "False"]
  | .none => [.ident "None"]
  | .str s => [.str s]
  | .int n => [.int n]
  | .list items => .lBracket :: (itemToks items ++ [.rBracket])
  | .dict entries => .lBrace :: (entryToks entries ++ [.rBrace])

/-- A number that is read is a 64-bit one. -/
def DictValue.fits : DictValue → Bool
  | .str _ => true
  | .int n => n < 2 ^ 64

/-- The literals of the subset: numbers have 64 bits, and a key is given once. -/
def Lit.fits : Lit → Bool
  | .int n => n < 2 ^ 64
  | .dict entries => (entries.map Prod.fst).Nodup && entries.all fun e => e.2.fits
  | _ => true

/-- A version and one call with named literal arguments. -/
structure Passport where
  version : String
  name : String
  args : List (String × Lit)
  named : isName name = true
  argsNamed : ∀ a ∈ args, isName a.1 = true
  once : (args.map Prod.fst).Nodup
  fits : ∀ a ∈ args, a.2.fits = true

namespace Passport

variable (p : Passport)

def versionToks : List Tok := [.ident "gdl_version", .eq, .str p.version]

def argToks (args : List (String × Lit)) : List Tok :=
  args.flatMap fun a => .ident a.1 :: .eq :: (a.2.toks ++ [.comma])

def callToks : List Tok := .ident p.name :: .lParen :: (argToks p.args ++ [.rParen])

def text : List Char := spellAll p.versionToks ++ '\n' :: (spellAll p.callToks ++ ['\n'])

/-- The passport as a text of the subset. -/
def write : String := String.ofList p.text

def call : Call where
  name := p.name
  args := p.args.map fun a => (a.1, a.2, 2)
  line := 2

/-- A reader of some calls takes the passport's, at its version. -/
def declared (calls : List String) (since : String) : Prop :=
  p.name ∈ calls ∧ p.name ∉ KEYWORDS ∧ p.name ≠ "load" ∧ readsVersion p.version since = true

end Passport

section Spelling

variable {file : String}

/-- A token that is spelled as the scan reads it. -/
def isSpelled : Tok → Bool
  | .ident w => isName w
  | .int n => n < 2 ^ 64
  | _ => true

theorem stringLoop_close (line : Nat) (more : List Char) :
    stringLoop '"' line ('"' :: more) = .ok ([], more) := by
  unfold stringLoop
  rfl

variable {rest : List Char} {c : Char}

theorem stringLoop_escape {line : Nat} {e said : Char} {r : List Char × List Char}
    (hsaid : escaped e = some said) (h : stringLoop '"' line rest = .ok r) :
    stringLoop '"' line ('\\' :: e :: rest) = .ok (said :: r.1, r.2) := by
  unfold stringLoop
  dsimp only
  rw [if_neg (by decide), if_neg (by decide), if_pos rfl, hsaid]
  dsimp only
  rw [h]
  rfl

theorem stringLoop_plain {line : Nat} {r : List Char × List Char}
    (hbreak : c ≠ '\n') (hquote : c ≠ '"') (hslash : c ≠ '\\')
    (h : stringLoop '"' line rest = .ok r) :
    stringLoop '"' line (c :: rest) = .ok (c :: r.1, r.2) := by
  unfold stringLoop
  rw [if_neg hbreak, if_neg hquote, if_neg hslash, h]
  rfl

theorem stringLoop_spelled (line : Nat) (s more : List Char) :
    stringLoop '"' line (s.flatMap spellChar ++ '"' :: more) = .ok (s, more) := by
  induction s with
  | nil => exact stringLoop_close line more
  | cons _ _ ih =>
    rw [List.flatMap_cons, List.append_assoc]
    unfold spellChar
    split
    · next hc =>
      subst hc
      exact stringLoop_escape rfl ih
    next hslash =>
    split
    · next hc =>
      subst hc
      exact stringLoop_escape rfl ih
    next hquote =>
    split
    · next hc =>
      subst hc
      exact stringLoop_escape rfl ih
    next hbreak =>
    exact stringLoop_plain hbreak hquote hslash ih

theorem not_triple (s more : List Char) :
    ¬ ((s.flatMap spellChar ++ '"' :: ' ' :: more).head? = some '"' &&
      (s.flatMap spellChar ++ '"' :: ' ' :: more).tail.head? = some '"') = true := by
  cases s with
  | nil => simp
  | cons =>
    rw [List.flatMap_cons]
    unfold spellChar
    split
    · simp
    next hslash =>
    split
    · simp
    next hquote =>
    split
    · simp
    · simp [hquote]

theorem string_spelled (line : Nat) (s : String) (more : List Char) :
    string '"' (s.toList.flatMap spellChar ++ '"' :: ' ' :: more) line = .ok (s, ' ' :: more) := by
  have hloop := stringLoop_spelled line s.toList (' ' :: more)
  unfold string
  rw [if_neg (not_triple s.toList more), hloop]
  exact congrArg (fun s => Except.ok (s, ' ' :: more)) (String.ofList_toList ..)

theorem takeWhile_spelled {test : Char → Bool} {text : List Char} (more : List Char)
    (htext : text.all test = true) (hblank : test ' ' = false) :
    (text ++ ' ' :: more).takeWhile test = text ∧
      (text ++ ' ' :: more).dropWhile test = ' ' :: more := by
  have hall : ∀ c ∈ text, test c = true := List.all_eq_true.mp htext
  rw [List.takeWhile_append_of_pos hall, List.dropWhile_append_of_pos hall]
  rw [List.takeWhile_cons_of_neg (by simp [hblank]), List.append_nil]
  exact ⟨rfl, List.dropWhile_cons_of_neg (by simp [hblank])⟩

theorem lexInt_spelled {n : Nat} (line : Nat) (more : List Char)
    (hn : n < 2 ^ 64) (hdigits : Nat.toDigits 10 n = c :: rest) :
    lexInt c (rest ++ ' ' :: more) line = .ok (.int n, ' ' :: more) := by
  have hall : ∀ d ∈ c :: rest, d.isDigit = true := by
    intro d hd
    rw [← hdigits] at hd
    exact Nat.isDigit_of_mem_toDigits (by omega) (by omega) hd
  have hrest : rest.all Char.isDigit = true :=
    List.all_eq_true.mpr fun d hd => hall d (List.mem_cons_of_mem c hd)
  obtain ⟨htake, hdrop⟩ := takeWhile_spelled more hrest rfl
  have hvalue : Rust.digitsValue (c :: rest) = n := by
    rw [← hdigits]
    exact Nat.ofDigitChars_toDigits (by omega) (by omega)
  have hparse : Rust.parseDigits (2 ^ 64 - 1) (c :: rest) = some n := by
    unfold Rust.parseDigits
    rw [hvalue, if_pos ⟨List.cons_ne_nil c rest, List.all_eq_true.mpr hall, by omega⟩]
  unfold lexInt
  dsimp only
  rw [htake, hdrop, hparse]
  rfl

theorem lexWord_spelled {w : String} (line : Nat) (more : List Char)
    (hw : w.toList = c :: rest) (hrest : rest.all isWordChar = true) :
    lexWord c (rest ++ ' ' :: more) line = .ok (.ident w, ' ' :: more) := by
  obtain ⟨htake, hdrop⟩ := takeWhile_spelled more hrest rfl
  unfold lexWord
  dsimp only
  rw [htake, hdrop, ← hw, String.ofList_toList]
  rfl

def startsToken (c : Char) : Bool := !(c = '\n' || c = ' ' || c = '\t' || c = '\r' || c = '#')

theorem plain_of_wordChar (h : isWordChar c = true) :
    single c = none ∧ c ≠ '=' ∧ ¬ (c = '"' || c = '\'') = true ∧ startsToken c = true := by
  refine ⟨?_, ?_, ?_, ?_⟩
  · unfold single
    split <;> first | rfl | exact absurd h (by decide)
  · rintro rfl
    exact absurd h (by decide)
  · intro hquote
    rcases Bool.or_eq_true_iff.mp hquote with hc | hc <;> rw [of_decide_eq_true hc] at h <;>
      exact absurd h (by decide)
  · unfold startsToken
    by_contra hblank
    simp only [Bool.not_eq_true', Bool.not_eq_false, Bool.or_eq_true, decide_eq_true_eq] at hblank
    rcases hblank with (((rfl | rfl) | rfl) | rfl) | rfl <;> exact absurd h (by decide)

theorem isWordChar_of_start (h : (c.isAlpha || c = '_') = true) :
    isWordChar c = true ∧ c.isDigit = false := by
  unfold isWordChar
  rcases Bool.or_eq_true_iff.mp h with halpha | hbar
  · constructor
    · simp [Char.isAlphanum, halpha]
    · simp only [Char.isAlpha, Char.isUpper, Char.isLower, ge_iff_le, UInt32.le_iff_toNat_le,
        Bool.or_eq_true, Bool.and_eq_true, decide_eq_true_eq] at halpha
      have hA : 'A'.val.toNat = 65 := rfl
      have ha : 'a'.val.toNat = 97 := rfl
      have h9 : '9'.val.toNat = 57 := rfl
      rw [Bool.eq_false_iff]
      simp only [Char.isDigit, ge_iff_le, UInt32.le_iff_toNat_le, ne_eq, Bool.and_eq_true,
        decide_eq_true_eq]
      omega
  · rw [of_decide_eq_true hbar]
    decide

theorem lexToken_spelled {tok : Tok} (line : Nat) (more : List Char) (h : isSpelled tok = true) :
    ∃ c rest, spell tok = c :: rest ∧ startsToken c = true ∧
      lexToken file c (rest ++ ' ' :: more) line = .ok (tok, ' ' :: more) := by
  cases tok with
  | ident =>
    simp only [isSpelled, isName] at h
    split at h
    · cases h
    next c rest hw =>
    obtain ⟨hstart, hrest⟩ := Bool.and_eq_true_iff.mp h
    obtain ⟨hword, hdigit⟩ := isWordChar_of_start hstart
    obtain ⟨hsingle, heq, hquote, hblank⟩ := plain_of_wordChar hword
    refine ⟨c, rest, hw, hblank, ?_⟩
    unfold lexToken
    rw [hsingle]
    dsimp only
    rw [if_neg heq, if_neg hquote, if_neg (by rw [hdigit]; exact Bool.false_ne_true),
      if_pos hstart]
    exact lexWord_spelled line more hw hrest
  | str s =>
    have hstring := string_spelled line s more
    refine ⟨'"', s.toList.flatMap spellChar ++ ['"'], rfl, rfl, ?_⟩
    rw [append_assoc]
    exact congrArg (fun r => r.bind fun r => Except.ok (Tok.str r.1, r.2)) hstring
  | int n =>
    obtain ⟨c, rest, hdigits⟩ := exists_cons_of_ne_nil (Nat.toDigits_ne_nil (n := n))
    have hdigit : c.isDigit = true := by
      refine Nat.isDigit_of_mem_toDigits (by omega : 0 < 10) (by omega) (n := n) ?_
      rw [hdigits]
      exact mem_cons_self
    have hword : isWordChar c = true := by
      unfold isWordChar
      simp [Char.isAlphanum, hdigit]
    obtain ⟨hsingle, heq, hquote, hblank⟩ := plain_of_wordChar hword
    refine ⟨c, rest, hdigits, hblank, ?_⟩
    unfold lexToken
    rw [hsingle]
    dsimp only
    rw [if_neg heq, if_neg hquote, if_pos hdigit]
    exact lexInt_spelled line more (of_decide_eq_true h) hdigits
  | eq => exact ⟨'=', [], rfl, rfl, rfl⟩
  | _ => exact ⟨_, [], rfl, rfl, rfl⟩

theorem lexLoop_blank (fuel line : Nat) (more : List Char) :
    lexLoop file (fuel + 1) (' ' :: more) line = lexLoop file fuel more line := by
  rfl

theorem lexLoop_break (fuel line : Nat) (more : List Char) :
    lexLoop file (fuel + 1) ('\n' :: more) line = lexLoop file fuel more (line + 1) := by
  rfl

/-- What is spelled out is read token by token. -/
theorem lexLoop_spelled {fuel line : Nat} {toks : List Tok} {more : List Char} {r : List Spanned}
    (htoks : ∀ t ∈ toks, isSpelled t = true) (h : lexLoop file fuel more line = .ok r) :
    lexLoop file (fuel + 2 * toks.length) (spellAll toks ++ more) line =
      .ok (toks.map (fun t => (t, line)) ++ r) := by
  induction toks with
  | nil => exact h
  | cons t toks ih =>
    have hrest := ih fun t ht => htoks t (mem_cons_of_mem _ ht)
    obtain ⟨c, rest, hspell, hblank, htoken⟩ :=
      @lexToken_spelled file t line (spellAll toks ++ more) (htoks t mem_cons_self)
    simp only [startsToken, Bool.not_eq_true', Bool.or_eq_false_iff, decide_eq_false_iff_not]
      at hblank
    have htext : spellAll (t :: toks) ++ more = c :: (rest ++ ' ' :: (spellAll toks ++ more)) := by
      unfold spellAll
      rw [flatMap_cons, hspell]
      simp
    rw [htext]
    have hfuel : fuel + 2 * (t :: toks).length = (fuel + 2 * toks.length) + 1 + 1 := by
      rw [length_cons]
      omega
    rw [hfuel, lexLoop, if_neg hblank.1.1.1.1, if_neg (by simp [hblank]), if_neg hblank.2, htoken]
    change (do
      let toks ← lexLoop file (fuel + 2 * toks.length + 1) (' ' :: (spellAll toks ++ more)) line
      Except.ok ((t, line) :: toks)) = _
    rw [lexLoop_blank, hrest]
    rfl

theorem length_spellAll {toks : List Tok} (htoks : ∀ t ∈ toks, isSpelled t = true) :
    2 * toks.length ≤ (spellAll toks).length := by
  induction toks with
  | nil => exact Nat.le_refl 0
  | cons t toks ih =>
    have hrest := ih fun t ht => htoks t (mem_cons_of_mem _ ht)
    obtain ⟨c, rest, hspell, -⟩ := @lexToken_spelled "" t 1 [] (htoks t mem_cons_self)
    have htext : spellAll (t :: toks) = spell t ++ ' ' :: spellAll toks := by
      unfold spellAll
      rw [flatMap_cons, append_assoc]
      rfl
    rw [htext, hspell]
    simp only [length_cons, length_append]
    omega

theorem lex_lines {first second : List Tok} (hfirst : ∀ t ∈ first, isSpelled t = true)
    (hsecond : ∀ t ∈ second, isSpelled t = true) :
    lex file (String.ofList (spellAll first ++ '\n' :: (spellAll second ++ ['\n']))) =
      .ok (first.map (fun t => (t, 1)) ++ second.map (fun t => (t, 2))) := by
  have hone := length_spellAll hfirst
  have htwo := length_spellAll hsecond
  unfold lex
  rw [String.toList_ofList]
  obtain ⟨k, hk⟩ : ∃ k, (spellAll first ++ '\n' :: (spellAll second ++ ['\n'])).length + 1 =
      ((k + 1 + 1) + 2 * second.length) + 1 + 2 * first.length := by
    refine ⟨(spellAll first).length - 2 * first.length +
      ((spellAll second).length - 2 * second.length), ?_⟩
    simp only [length_append, length_cons, length_nil]
    omega
  rw [hk]
  have hend : lexLoop file (k + 1 + 1) ['\n'] 2 = .ok [] := rfl
  have hlast := lexLoop_spelled hsecond hend
  rw [append_nil] at hlast
  exact lexLoop_spelled hfirst ((lexLoop_break _ 1 _).trans hlast)

end Spelling

section Reading

variable {endLine line fuel : Nat} {rest : List Spanned}

def onLine (line : Nat) (toks : List Tok) : List Spanned := toks.map fun t => (t, line)

theorem list_written {items : List String} (hfuel : items.length < fuel) :
    list endLine fuel (onLine line (itemToks items ++ [Tok.rBracket]) ++ rest) =
      .ok (items, rest) := by
  induction items generalizing fuel with
  | nil =>
    obtain ⟨fuel, rfl⟩ := Nat.exists_eq_add_of_le' hfuel
    rfl
  | cons s items ih =>
    obtain ⟨fuel, rfl⟩ := Nat.exists_eq_add_of_le' hfuel
    have hlt : items.length < fuel + items.length + 1 := by omega
    change (do
      let r ← list endLine (fuel + items.length + 1)
        (onLine line (itemToks items ++ [Tok.rBracket]) ++ rest)
      Except.ok (s :: r.1, r.2)) = _
    rw [ih hlt]
    rfl

theorem dict_entry {acc : List (String × DictValue)} {e : String × DictValue}
    (hnew : e.1 ∉ acc.map Prod.fst) :
    dict endLine (fuel + 1) acc
        ((.str e.1, line) :: (.colon, line) :: (e.2.tok, line) :: (.comma, line) :: rest) =
      dict endLine fuel (acc ++ [e]) rest := by
  obtain ⟨key, v⟩ := e
  cases v with
  | str => exact if_neg hnew
  | int => exact if_neg hnew

theorem dict_written {acc entries : List (String × DictValue)} (hfuel : entries.length < fuel)
    (hkeys : ((acc ++ entries).map Prod.fst).Nodup) :
    dict endLine fuel acc (onLine line (entryToks entries ++ [Tok.rBrace]) ++ rest) =
      .ok (acc ++ entries, rest) := by
  induction entries generalizing fuel acc with
  | nil =>
    obtain ⟨fuel, rfl⟩ := Nat.exists_eq_add_of_le' hfuel
    rw [append_nil]
    rfl
  | cons e entries ih =>
    obtain ⟨fuel, rfl⟩ := Nat.exists_eq_add_of_le' hfuel
    have hlt : entries.length < fuel + entries.length + 1 := by omega
    have hnew : e.1 ∉ acc.map Prod.fst := by
      rw [map_append, nodup_append] at hkeys
      intro hmem
      exact hkeys.2.2 e.1 hmem e.1 mem_cons_self rfl
    have hassoc : acc ++ e :: entries = acc ++ [e] ++ entries := by
      rw [append_assoc]
      rfl
    rw [hassoc] at hkeys ⊢
    exact (dict_entry hnew).trans (ih hlt hkeys)

theorem length_onLine_items (line : Nat) (rest : List Spanned) (items : List String) :
    items.length < (onLine line (itemToks items ++ [.rBracket]) ++ rest).length + 1 := by
  have hlength : items.length ≤ (itemToks items).length := by
    unfold itemToks
    induction items with
    | nil => exact Nat.le_refl 0
    | cons =>
      rw [flatMap_cons, length_append, length_cons]
      simp only [length_cons, length_nil]
      omega
  simp only [onLine, length_append, length_map]
  omega

theorem length_onLine_entries (line : Nat) (rest : List Spanned)
    (entries : List (String × DictValue)) :
    entries.length < (onLine line (entryToks entries ++ [.rBrace]) ++ rest).length + 1 := by
  have hlength : entries.length ≤ (entryToks entries).length := by
    unfold entryToks
    induction entries with
    | nil => exact Nat.le_refl 0
    | cons =>
      rw [flatMap_cons, length_append, length_cons]
      simp only [length_cons, length_nil]
      omega
  simp only [onLine, length_append, length_map]
  omega

theorem value_written {v : Lit} (hfits : v.fits = true) :
    value endLine (onLine line v.toks ++ rest) = .ok (v, rest) := by
  cases v with
  | bool b => cases b <;> rfl
  | none => rfl
  | str => rfl
  | int => rfl
  | list items =>
    have hlist := @list_written endLine line _ rest items (length_onLine_items line rest items)
    exact congrArg (fun r => r.bind fun r => Except.ok (Lit.list r.1, r.2)) hlist
  | dict entries =>
    have hkeys : ((([] : List (String × DictValue)) ++ entries).map Prod.fst).Nodup :=
      of_decide_eq_true (Bool.and_eq_true_iff.mp hfits).1
    have hdict := @dict_written endLine line _ rest [] entries
      (length_onLine_entries line rest entries) hkeys
    exact congrArg (fun r => r.bind fun r => Except.ok (Lit.dict r.1, r.2)) hdict

theorem args_arg {acc : List (String × Lit × Nat)} {name : String} {v : Lit}
    (hnew : name ∉ acc.map Prod.fst) (hfits : v.fits = true) :
    args endLine (fuel + 1) acc (onLine line (.ident name :: .eq :: (v.toks ++ [.comma])) ++ rest) =
      args endLine fuel (acc ++ [(name, v, line)]) rest := by
  have hvalue := @value_written endLine line ((.comma, line) :: rest) v hfits
  have htoks : onLine line (.ident name :: .eq :: (v.toks ++ [.comma])) ++ rest =
      (.ident name, line) :: (.eq, line) :: (onLine line v.toks ++ (.comma, line) :: rest) := by
    simp [onLine]
  rw [htoks, args, hvalue]
  exact if_neg hnew

theorem args_written {acc : List (String × Lit × Nat)} {written : List (String × Lit)}
    (hfuel : written.length < fuel) (hkeys : (acc.map Prod.fst ++ written.map Prod.fst).Nodup)
    (hfits : ∀ a ∈ written, a.2.fits = true) :
    args endLine fuel acc (onLine line (Passport.argToks written ++ [.rParen]) ++ rest) =
      .ok (acc ++ written.map (fun a => (a.1, a.2, line)), line, rest) := by
  induction written generalizing fuel acc with
  | nil =>
    obtain ⟨fuel, rfl⟩ := Nat.exists_eq_add_of_le' hfuel
    rw [map_nil, append_nil]
    rfl
  | cons a written ih =>
    obtain ⟨fuel, rfl⟩ := Nat.exists_eq_add_of_le' hfuel
    have hlt : written.length < fuel + written.length + 1 := by omega
    have hnew : a.1 ∉ acc.map Prod.fst := by
      intro hmem
      exact (nodup_append.mp hkeys).2.2 a.1 hmem a.1 mem_cons_self rfl
    have hmore : ((acc ++ [(a.1, a.2, line)]).map Prod.fst ++ written.map Prod.fst).Nodup := by
      rw [map_append, append_assoc]
      exact hkeys
    have htoks : onLine line (Passport.argToks (a :: written) ++ [.rParen]) ++ rest =
        onLine line (.ident a.1 :: .eq :: (a.2.toks ++ [.comma])) ++
          (onLine line (Passport.argToks written ++ [.rParen]) ++ rest) := by
      simp [onLine, Passport.argToks]
    have hrest : ∀ b ∈ written, b.2.fits = true :=
      fun b hb => hfits b (mem_cons_of_mem a hb)
    rw [htoks]
    refine (args_arg hnew (hfits a mem_cons_self)).trans ((ih hlt hmore hrest).trans ?_)
    rw [append_assoc]
    rfl

variable {file : String} {calls : List String} {since : String}

theorem length_argToks (written : List (String × Lit)) :
    written.length ≤ (Passport.argToks written).length := by
  unfold Passport.argToks
  induction written with
  | nil => exact Nat.le_refl 0
  | cons =>
    rw [flatMap_cons, length_append, length_cons]
    simp only [length_cons]
    omega

variable {p : Passport}

theorem readStatement_call {v : String} (hdeclared : p.declared calls since) :
    readStatement file calls since endLine ⟨some v, none, 1⟩ (.ident p.name) 2
        ((.lParen, 2) :: onLine 2 (Passport.argToks p.args ++ [.rParen])) =
      .ok (⟨some v, some p.call, 2⟩, []) := by
  obtain ⟨hmem, hkeyword, hload, -⟩ := hdeclared
  have hlength : p.args.length < (onLine 2 (Passport.argToks p.args ++ [.rParen])).length + 1 := by
    have hargs := length_argToks p.args
    simp only [onLine, length_append, length_map]
    omega
  have hargs := @args_written endLine 2 _ [] [] p.args hlength p.once p.fits
  rw [append_nil] at hargs
  have hfresh : ¬ 2 = (Reading.mk (some v) none 1).lastLine := nofun
  unfold readStatement
  rw [if_neg hfresh]
  dsimp only
  rw [if_neg hkeyword]
  unfold readDeclaration
  rw [if_neg hload, if_neg (not_not.mpr hmem)]
  dsimp only
  rw [hargs]
  rfl

theorem isSpelled_lit {v : Lit} {t : Tok} (hfits : v.fits = true) (h : t ∈ v.toks) :
    isSpelled t = true := by
  cases v with
  | bool b => cases b <;> rw [mem_singleton.mp h] <;> rfl
  | none => rw [mem_singleton.mp h]; rfl
  | str => rw [mem_singleton.mp h]; rfl
  | int => rw [mem_singleton.mp h]; exact hfits
  | list =>
    simp only [Lit.toks, itemToks, mem_cons, mem_append, mem_flatMap,
      not_mem_nil, or_false] at h
    rcases h with rfl | ⟨s, -, rfl | rfl⟩ | rfl <;> rfl
  | dict =>
    simp only [Lit.toks, entryToks, mem_cons, mem_append, mem_flatMap,
      not_mem_nil, or_false] at h
    rcases h with rfl | ⟨e, he, rfl | rfl | rfl | rfl⟩ | rfl
    · rfl
    · rfl
    · rfl
    · have hall := all_eq_true.mp (Bool.and_eq_true_iff.mp hfits).2 e he
      obtain ⟨key, v⟩ := e
      cases v with
      | str => rfl
      | int => exact hall
    · rfl
    · rfl

theorem isSpelled_call (p : Passport) : ∀ t ∈ p.callToks, isSpelled t = true := by
  intro t ht
  simp only [Passport.callToks, Passport.argToks, mem_cons, mem_append,
    mem_flatMap, not_mem_nil, or_false] at ht
  rcases ht with rfl | rfl | ⟨a, ha, rfl | rfl | hv | rfl⟩ | rfl
  · exact p.named
  · rfl
  · exact p.argsNamed a ha
  · rfl
  · exact isSpelled_lit (p.fits a ha) hv
  · rfl
  · rfl

theorem isSpelled_version (p : Passport) : ∀ t ∈ p.versionToks, isSpelled t = true := by
  intro t ht
  simp only [Passport.versionToks, mem_cons, not_mem_nil, or_false] at ht
  rcases ht with rfl | rfl | rfl
  · decide
  · rfl
  · rfl

theorem readStatements_written (k : Nat) (hdeclared : p.declared calls since) :
    readStatements file calls since endLine (k + 3) ⟨none, none, 0⟩
        (onLine 1 p.versionToks ++ onLine 2 p.callToks) =
      .ok ⟨some p.version, some p.call, 2⟩ := by
  have hcall := @readStatement_call endLine file calls since p p.version hdeclared
  change (do
    let next ← readStatement file calls since endLine ⟨some p.version, none, 1⟩
      (.ident p.name) 2 ((.lParen, 2) :: onLine 2 (Passport.argToks p.args ++ [Tok.rParen]))
    readStatements file calls since endLine (k + 1) next.1 next.2) = _
  rw [hcall]
  rfl

/-- A passport that is written reads as itself. -/
theorem readCall_write (hdeclared : p.declared calls since) :
    readCall file calls since p.write = .ok p.call := by
  have hlex : lex file p.write = .ok (onLine 1 p.versionToks ++ onLine 2 p.callToks) :=
    lex_lines (isSpelled_version p) (isSpelled_call p)
  obtain ⟨k, hk⟩ : ∃ k, (onLine 1 p.versionToks ++ onLine 2 p.callToks).length + 1 = k + 3 := by
    refine ⟨(onLine 2 p.callToks).length + 1, ?_⟩
    simp only [onLine, Passport.versionToks, length_append, length_map,
      length_cons, length_nil]
    omega
  unfold readCall
  rw [hlex]
  refine bind_eq_ok_iff.mpr ⟨_, rfl, bind_eq_ok_iff.mpr ⟨⟨some p.version, some p.call, 2⟩, ?_, ?_⟩⟩
  · rw [hk]
    exact readStatements_written k hdeclared
  · unfold accept
    dsimp only
    rw [if_pos hdeclared.2.2.2]

end Reading

/-- **A passport reads the same either way** where it is laid out as a file of the language,
and nowhere else; and a passport that is written reads as itself. -/
theorem passports_read_the_same (file : String) {calls : List String} (since : String)
    (hcalls : ∀ name ∈ calls, isDeclaration name = true) :
    (∀ src call, readCall file calls since src = .ok call →
      (SameInStarlark since src call ↔ LaidOut src)) ∧
      ∀ p : Passport, p.declared calls since → readCall file calls since p.write = .ok p.call :=
  ⟨fun _ _ h => sameInStarlark_iff hcalls h, fun _ hdeclared => readCall_write hdeclared⟩

private def shopService : Passport where
  version := "1.6"
  name := "service"
  args := [("name", .str "shop \"1\""), ("port", .int 8080), ("tags", .list ["a", "b"])]
  named := by decide
  argsNamed := by decide
  once := by decide
  fits := by decide

/-- A passport in the usual layout, and one that is written. -/
theorem service_reads_the_same :
    SameInStarlark "1.6" "gdl_version = \"1.6\"\n\nservice(\n  port = 80,  # http\n)\n"
        ⟨"service", [("port", .int 80, 4)], 3⟩ ∧
      readCall "service.gdl" ["service"] "1.6" shopService.write = .ok shopService.call := by
  obtain ⟨hsame, hwrite⟩ := @passports_read_the_same "service.gdl" ["service"] "1.6" (by decide)
  constructor
  · exact (hsame _ _ (by decide +kernel)).mpr (by decide +kernel)
  · exact hwrite shopService ⟨by decide, by decide, by decide, by decide⟩

/-- A call whose bracket is on the next line is read, and is none in the language. -/
theorem bracket_on_the_next_line :
    ¬ ∀ file calls since, (∀ name ∈ calls, isDeclaration name = true) →
      (∀ src call, readCall file calls since src = .ok call → SameInStarlark since src call) ∧
        ∀ p : Passport, p.declared calls since →
          readCall file calls since p.write = .ok p.call := by
  intro hclaim
  obtain ⟨v, -, hrun⟩ := (hclaim "service.gdl" ["service"] "1.6" (by decide)).1
    "gdl_version = \"1.6\"\nservice\n(port = 80)\n" ⟨"service", [("port", .int 80, 3)], 2⟩
    (by decide +kernel)
  have hnone : (Starlark.run reservedWords
      "gdl_version = \"1.6\"\nservice\n(port = 80)\n".toList).isSome = false := by
    decide +kernel
  rw [hrun] at hnone
  cases hnone

end ComponentsCatalog
end StudioWeb
