import StudioWeb.Library.Starlark
import StudioWeb.ComponentsCatalog.GdlLiteral

/-!
# The tokens and values of a passport, as the language reads them

The scan of `gdl_literal.rs` against the scan of Starlark, and its reader of values and named
arguments against the language's.  `Taken front out reads b closing` says of the tokens that
a reader takes from the front what the language reads of them and how they stand in brackets.
-/

namespace StudioWeb
namespace ComponentsCatalog

open List Option Starlark
open Rust (bind_eq_ok_iff)
open Starlark (Token Placed depths lastLine)

def readToken : Token → Tok
  | .word w => .ident w
  | .str s => .str s
  | .int digits => .int (Rust.digitsValue digits)
  | .lParen => .lParen
  | .rParen => .rParen
  | .lBracket => .lBracket
  | .rBracket => .rBracket
  | .lBrace => .lBrace
  | .rBrace => .rBrace
  | .colon => .colon
  | .comma => .comma
  | .assign => .eq

def spanned (p : Placed) : Spanned := (readToken p.tok, p.line)

theorem single_eq (c : Char) : single c = (mark c).map readToken := by
  unfold single mark
  split <;> first | rfl | (split <;> simp_all)

theorem escaped_eq (c : Char) : escaped c = escape c := by
  unfold escaped escape
  split <;> first | rfl | (split <;> simp_all)

theorem stringBody_of_stringLoop
    {quote : Char} {line : Nat} {text : List Char} {r : List Char × List Char}
    (h : stringLoop quote line text = .ok r) : stringBody quote text = some r := by
  fun_induction stringLoop quote line text generalizing r with
  | case1 => cases h
  | case2 => cases h
  | case3 _ hline =>
    cases h
    unfold stringBody
    rw [if_neg hline, if_pos rfl]
  | case4 => cases h
  | case5 _ _ _ hsaid hline hquote ih =>
    obtain ⟨a, ha, hr⟩ := bind_eq_ok_iff.mp h
    cases hr
    unfold stringBody
    rw [if_neg hline, if_neg hquote, if_pos rfl]
    dsimp only
    rw [← escaped_eq, hsaid, ih ha]
    rfl
  | case6 => cases h
  | case7 _ _ hline hquote hslash ih =>
    obtain ⟨a, ha, hr⟩ := bind_eq_ok_iff.mp h
    cases hr
    unfold stringBody
    rw [if_neg hline, if_neg hquote, if_neg hslash, ih ha]
    rfl

theorem stringToken_of_string
    {quote : Char} {line : Nat} {rest : List Char} {r : String × List Char}
    (h : string quote rest line = .ok r) :
    stringToken quote rest = some (.str r.1, r.2) := by
  unfold string at h
  split at h
  · cases h
  · next htriple =>
    obtain ⟨a, ha, hr⟩ := bind_eq_ok_iff.mp h
    cases hr
    unfold stringToken
    rw [if_neg htriple, stringBody_of_stringLoop ha]
    rfl

theorem intToken_of_lexInt {c : Char} {rest : List Char} {line : Nat} {t : Tok × List Char}
    (h : lexInt c rest line = .ok t) :
    ∃ tok, intToken c rest = some (tok, t.2) ∧ readToken tok = t.1 := by
  unfold lexInt at h
  dsimp only at h
  split at h
  · cases h
  · next hafter =>
    split at h
    · next _ hn =>
      cases h
      unfold intToken
      refine ⟨.int (c :: rest.takeWhile Char.isDigit), if_neg hafter, ?_⟩
      unfold Rust.parseDigits at hn
      split at hn
      · exact congrArg Tok.int (some.inj hn)
      · cases hn
    · cases h

theorem wordToken_of_lexWord {c : Char} {rest : List Char} {line : Nat} {t : Tok × List Char}
    (h : lexWord c rest line = .ok t) :
    ∃ tok, wordToken c rest = some (tok, t.2) ∧ readToken tok = t.1 := by
  unfold lexWord at h
  dsimp only at h
  split at h
  · cases h
  · next hafter =>
    cases h
    exact ⟨.word (String.ofList (c :: rest.takeWhile isWordChar)), if_neg hafter, rfl⟩

theorem nextToken_of_lexToken
    {file : String} {c : Char} {rest : List Char} {line : Nat} {t : Tok × List Char}
    (h : lexToken file c rest line = .ok t) :
    ∃ tok, nextToken c rest = some (tok, t.2) ∧ readToken tok = t.1 := by
  unfold lexToken at h
  rw [single_eq] at h
  unfold nextToken
  cases hmark : mark c with
  | some tok =>
    rw [hmark] at h
    cases h
    exact ⟨tok, rfl, rfl⟩
  | none =>
    rw [hmark] at h
    dsimp only [map_none] at h ⊢
    split at h
    · next heq =>
      rw [if_pos heq]
      split at h
      · cases h
      · next hone =>
        cases h
        exact ⟨.assign, if_neg hone, rfl⟩
    next heq =>
    rw [if_neg heq]
    split at h
    · next hquote =>
      obtain ⟨a, ha, hr⟩ := bind_eq_ok_iff.mp h
      cases hr
      have hquote : isQuote c = true := hquote
      rw [if_pos hquote, stringToken_of_string ha]
      exact ⟨.str a.1, rfl, rfl⟩
    next hquote =>
    have hquote : ¬ isQuote c = true := hquote
    rw [if_neg hquote]
    split at h
    · next hdigit =>
      rw [if_pos hdigit]
      exact intToken_of_lexInt h
    next hdigit =>
    rw [if_neg hdigit]
    split at h
    · next hword =>
      have hword : isWordStart c = true := hword
      rw [if_pos hword]
      exact wordToken_of_lexWord h
    · cases h

/-- What `lex` reads are the tokens of the language, each on its line. -/
theorem scan_of_lexLoop
    {file : String} {fuel : Nat} {text : List Char} {line : Nat} {toks : List Spanned}
    (h : lexLoop file fuel text line = .ok toks) (indent : Nat) :
    ∃ placed, scan fuel text line indent = some placed ∧
      toks = placed.map spanned := by
  induction fuel generalizing text line toks indent with
  | zero => cases h
  | succ _ ih =>
    cases text with
    | nil =>
      cases h
      exact ⟨[], rfl, rfl⟩
    | cons c =>
      simp only [lexLoop] at h
      simp only [scan]
      split at h
      · next hbreak =>
        rw [if_pos hbreak]
        exact ih h 0
      next hbreak =>
      rw [if_neg hbreak]
      split at h
      · next hblank =>
        split
        · exact ih h (indent + 1)
        · next hspace =>
          have hreturn : c = '\r' := by
            simp only [Bool.or_eq_true, decide_eq_true_eq, not_or] at hblank hspace
            rcases hblank with (hc | hc) | hc
            · exact absurd hc hspace.1
            · exact absurd hc hspace.2
            · exact hc
          rw [if_pos hreturn]
          exact ih h indent
      next hblank =>
      simp only [Bool.or_eq_true, decide_eq_true_eq, not_or] at hblank
      rw [if_neg (by simp [hblank.1]), if_neg hblank.2]
      split at h
      · next hcomment =>
        rw [if_pos hcomment]
        exact ih h indent
      next hcomment =>
      rw [if_neg hcomment]
      obtain ⟨t, ht, h⟩ := bind_eq_ok_iff.mp h
      obtain ⟨more, hmore, h⟩ := bind_eq_ok_iff.mp h
      cases h
      obtain ⟨tok, htok, hread⟩ := nextToken_of_lexToken ht
      obtain ⟨placed, hplaced, hmap⟩ := ih hmore indent
      refine ⟨⟨tok, line, indent⟩ :: placed, ?_, ?_⟩
      · rw [htok, bind_some, hplaced]
        rfl
      · rw [map_cons, ← hmap, ← hread]
        rfl

section Values

/-- The value of the language that a literal is. -/
def DictValue.value : DictValue → Starlark.Value
  | .str s => .str s
  | .int n => .int n

/-- The value of the language that a literal is. -/
def Lit.value : Lit → Starlark.Value
  | .bool b => .bool b
  | .none => .none
  | .str s => .str s
  | .int n => .int n
  | .list items => .list (items.map .str)
  | .dict entries => .dict (entries.map fun e => (e.1, e.2.value))

/-- Some tokens as a reader takes them from the front: how many of the brackets that are open
they leave open, the line they end on, and what the language reads of them. -/
structure Taken {β : Type} (front : List Placed) (out : Nat → Nat)
    (reads : Nat → List Token → Option (β × List Token)) (b : β) (closing : Nat) : Prop where
  brackets : ∀ depth, depths (depth + 1) front = some (out depth)
  closes : ∀ line, lastLine line front = closing
  read : ∀ fuel more, front.length ≤ fuel →
    reads fuel (front.map Placed.tok ++ more) = some (b, more)

/-- A reader has taken some tokens from the front of `ps`. -/
def Takes {β : Type} (ps : List Placed) (rest : List Spanned) (out : Nat → Nat)
    (reads : Nat → List Token → Option (β × List Token)) (b : β) : Prop :=
  ∃ front back closing, ps = front ++ back ∧ rest = back.map spanned ∧
    Taken front out reads b closing

variable {endLine : Nat}

theorem tok_of_read {close tok : Token} (hclose : ∀ digits, close ≠ .int digits)
    (h : readToken tok = readToken close) : tok = close := by
  cases close with
  | int digits => exact absurd rfl (hclose digits)
  | word =>
    cases tok <;> cases h
    rfl
  | str =>
    cases tok <;> cases h
    rfl
  | _ => cases tok <;> first | rfl | cases h

theorem itemEnd_takes {close : Token} {what : String} {ps : List Placed} {r : Bool × List Spanned}
    (hclose : ∀ digits, close ≠ .int digits)
    (h : itemEnd endLine (readToken close) what (ps.map spanned) = .ok r) :
    ∃ p back, ps = p :: back ∧ r.2 = back.map spanned ∧
      (p.tok = .comma ∧ r.1 = false ∨ p.tok ≠ .comma ∧ p.tok = close ∧ r.1 = true) := by
  cases ps with
  | nil => cases h
  | cons p back =>
    simp only [map_cons, spanned, itemEnd] at h
    split at h
    · next hcomma =>
      cases h
      exact ⟨p, back, rfl, rfl, .inl ⟨@tok_of_read .comma p.tok nofun hcomma, rfl⟩⟩
    · next hcomma =>
      split at h
      · next heq =>
        cases h
        refine ⟨p, back, rfl, rfl, .inr ⟨?_, tok_of_read hclose heq, rfl⟩⟩
        intro htok
        rw [htok] at hcomma
        exact hcomma rfl
      · cases h

theorem items_str_comma
    {fuel : Nat} {s : String} {toks more : List Token} {vs : List Starlark.Value}
    (h : Starlark.items (fuel + 1) toks = some (vs, more)) :
    Starlark.items (fuel + 2) (.str s :: .comma :: toks) = some (.str s :: vs, more) := by
  rw [Starlark.items]
  · simp only [Starlark.value, Starlark.itemEnd, bind_some, Bool.false_eq_true, if_false,
      h, map_some]
  · intro _ h
    cases h

theorem list_takes {fuel : Nat} {ps : List Placed} {r : List String × List Spanned}
    (h : list endLine fuel (ps.map spanned) = .ok r) :
    Takes ps r.2 id Starlark.items (r.1.map .str) := by
  induction fuel generalizing ps r with
  | zero => cases h
  | succ fuel ih =>
    cases ps with
    | nil => cases h
    | cons p ps =>
      obtain ⟨tok, line, indent⟩ := p
      cases tok with
      | rBracket =>
        cases h
        refine ⟨[_], ps, line, rfl, rfl, fun depth => rfl, fun line => rfl, ?_⟩
        intro fuel more hfuel
        obtain ⟨fuel, rfl⟩ := Nat.exists_eq_add_of_le' hfuel
        rfl
      | str s =>
        simp only [list, map_cons, spanned, readToken] at h
        obtain ⟨⟨stops, after⟩, hstop, hgo⟩ := bind_eq_ok_iff.mp h
        obtain ⟨q, back, rfl, hback, hend⟩ := @itemEnd_takes _ .rBracket _ _ _ nofun hstop
        obtain ⟨qtok, qline, qindent⟩ := q
        cases hback
        rcases hend with ⟨rfl, rfl⟩ | ⟨-, rfl, rfl⟩
        · obtain ⟨a, ha, hr⟩ := bind_eq_ok_iff.mp hgo
          cases hr
          obtain ⟨front, back, closing, rfl, hrest, htaken⟩ := ih ha
          refine ⟨⟨.str s, line, indent⟩ :: ⟨.comma, qline, qindent⟩ :: front, back,
            closing, rfl, hrest, htaken.brackets, fun _ => htaken.closes qline, ?_⟩
          intro fuel more hfuel
          obtain ⟨fuel, rfl⟩ := Nat.exists_eq_add_of_le' hfuel
          have hread := htaken.read (fuel + front.length + 1) more (by omega)
          exact items_str_comma hread
        · cases hgo
          refine ⟨[_, _], back, qline, rfl, rfl, fun _ => rfl, fun _ => rfl, ?_⟩
          intro fuel more hfuel
          obtain ⟨fuel, rfl⟩ := Nat.exists_eq_add_of_le' hfuel
          rfl
      | _ => cases h

theorem afterKey_takes {ps : List Placed} {rest : List Spanned}
    (h : afterKey endLine (ps.map spanned) = .ok rest) :
    ∃ p back, ps = p :: back ∧ p.tok = .colon ∧ rest = back.map spanned := by
  cases ps with
  | nil => cases h
  | cons p back =>
    obtain ⟨tok, line, indent⟩ := p
    cases tok with
    | colon =>
      cases h
      exact ⟨_, back, rfl, rfl, rfl⟩
    | _ => cases h

theorem dictValue_takes {ps : List Placed} {v : DictValue × List Spanned}
    (h : dictValue endLine (ps.map spanned) = .ok v) :
    ∃ p back, ps = p :: back ∧ v.2 = back.map spanned ∧
      (∀ depth, depthAfter depth p.tok = depth) ∧
      ∀ fuel more, Starlark.value (fuel + 1) (p.tok :: more) = some (v.1.value, more) := by
  cases ps with
  | nil => cases h
  | cons p back =>
    obtain ⟨tok, line, indent⟩ := p
    cases tok with
    | str =>
      cases h
      exact ⟨_, back, rfl, rfl, fun _ => rfl, fun _ _ => rfl⟩
    | int =>
      cases h
      exact ⟨_, back, rfl, rfl, fun _ => rfl, fun _ _ => rfl⟩
    | _ => cases h

def entryValues (entries : List (String × DictValue)) : List (String × Starlark.Value) :=
  entries.map fun e => (e.1, e.2.value)

theorem entries_comma
    {fuel : Nat} {key : String} {vtok : Token} {v : Starlark.Value} {toks more : List Token}
    {es : List (String × Starlark.Value)}
    (hv : ∀ more, Starlark.value (fuel + 1) (vtok :: more) = some (v, more))
    (hmore : Starlark.entries (fuel + 1) toks = some (es, more)) :
    Starlark.entries (fuel + 2) (.str key :: .colon :: vtok :: .comma :: toks) =
      some ((key, v) :: es, more) := by
  rw [Starlark.entries, hv]
  simp only [Starlark.itemEnd, bind_some, Bool.false_eq_true, if_false, hmore,
    map_some]

theorem entries_end {fuel : Nat} {key : String} {vtok : Token} {v : Starlark.Value}
    (hv : ∀ more, Starlark.value (fuel + 1) (vtok :: more) = some (v, more)) (more : List Token) :
    Starlark.entries (fuel + 2) (.str key :: .colon :: vtok :: .rBrace :: more) =
      some ([(key, v)], more) := by
  rw [Starlark.entries, hv]
  rfl

theorem nodup_snoc {β : Type} {acc : List (String × β)} {key : String} {v : β}
    (hacc : (acc.map Prod.fst).Nodup) (hnew : key ∉ acc.map Prod.fst) :
    ((acc ++ [(key, v)]).map Prod.fst).Nodup := by
  rw [map_append]
  refine nodup_append.mpr ⟨hacc, nodup_cons.mpr ⟨nofun, .nil⟩, ?_⟩
  intro a ha b hb heq
  rw [heq, mem_singleton.mp hb] at ha
  exact hnew ha

theorem dict_takes {fuel : Nat} {acc : List (String × DictValue)} {ps : List Placed}
    {r : List (String × DictValue) × List Spanned} (hacc : (acc.map Prod.fst).Nodup)
    (h : dict endLine fuel acc (ps.map spanned) = .ok r) :
    (r.1.map Prod.fst).Nodup ∧ ∃ new, r.1 = acc ++ new ∧
      Takes ps r.2 id Starlark.entries (entryValues new) := by
  induction fuel generalizing acc ps r with
  | zero => cases h
  | succ fuel ih =>
    cases ps with
    | nil => cases h
    | cons p ps =>
      obtain ⟨tok, line, indent⟩ := p
      cases tok with
      | rBrace =>
        cases h
        refine ⟨hacc, [], (append_nil acc).symm, [_], ps, line, rfl, rfl,
          fun depth => rfl, fun line => rfl, ?_⟩
        intro fuel more hfuel
        obtain ⟨fuel, rfl⟩ := Nat.exists_eq_add_of_le' hfuel
        rfl
      | str key =>
        simp only [dict, map_cons, spanned, readToken] at h
        obtain ⟨rest, hcolon, hkey⟩ := bind_eq_ok_iff.mp h
        obtain ⟨⟨ctok, cline, cindent⟩, ps, rfl, hctok, rfl⟩ := afterKey_takes hcolon
        cases hctok
        obtain ⟨⟨v, rest⟩, hvalue, hpair⟩ := bind_eq_ok_iff.mp hkey
        obtain ⟨⟨vtok, vline, vindent⟩, ps, rfl, hrest, hdepth, hread⟩ := dictValue_takes hvalue
        cases hrest
        split at hpair
        · cases hpair
        next hnew =>
        obtain ⟨⟨stops, after⟩, hstop, hgo⟩ := bind_eq_ok_iff.mp hpair
        obtain ⟨⟨qtok, qline, qindent⟩, back, rfl, hback, hend⟩ :=
          @itemEnd_takes _ .rBrace _ _ _ nofun hstop
        cases hback
        have hnodup := nodup_snoc (v := v) hacc hnew
        have hflat : ∀ depth, depthAfter depth vtok = depth := hdepth
        rcases hend with ⟨rfl, rfl⟩ | ⟨-, rfl, rfl⟩
        · obtain ⟨hkeys, new, hnews, front, back, closing, rfl, hrest, htaken⟩ :=
            ih hnodup hgo
          refine ⟨hkeys, (key, v) :: new, by rw [hnews, append_assoc]; rfl,
            ⟨.str key, line, indent⟩ :: ⟨.colon, cline, cindent⟩ ::
              ⟨vtok, vline, vindent⟩ :: ⟨.comma, qline, qindent⟩ :: front, back,
            closing, rfl, hrest, ?_, fun _ => htaken.closes qline, ?_⟩
          · intro depth
            change depths (depthAfter (depth + 1) vtok) _ = _
            rw [hflat]
            exact htaken.brackets depth
          · intro fuel more hfuel
            obtain ⟨fuel, rfl⟩ := Nat.exists_eq_add_of_le' hfuel
            have hmore := htaken.read (fuel + front.length + 3) more (by omega)
            exact entries_comma (hread (fuel + front.length + 2)) hmore
        · cases hgo
          refine ⟨hnodup, [(key, v)], rfl, [_, _, _, _], back, qline, rfl, rfl, ?_,
            fun _ => rfl, ?_⟩
          · intro depth
            change depths (depthAfter (depth + 1) vtok) _ = _
            rw [hflat]
            rfl
          · intro fuel more hfuel
            obtain ⟨fuel, rfl⟩ := Nat.exists_eq_add_of_le' hfuel
            exact entries_end (hread (fuel + 2)) more
      | _ => cases h

theorem value_word {w : String} {line : Nat} {rest : List Spanned} {v : Lit × List Spanned}
    (h : value endLine ((.ident w, line) :: rest) = .ok v) :
    v.2 = rest ∧
      ∀ fuel more, Starlark.value (fuel + 1) (.word w :: more) = some (v.1.value, more) := by
  simp only [value] at h
  simp only [Starlark.value]
  split at h
  · next htrue =>
    cases h
    exact ⟨rfl, fun _ _ => if_pos htrue⟩
  next htrue =>
  split at h
  · next hfalse =>
    cases h
    exact ⟨rfl, fun _ _ => by rw [if_neg htrue, if_pos hfalse]; rfl⟩
  next hfalse =>
  split at h
  · next hnone =>
    cases h
    exact ⟨rfl, fun _ _ => by rw [if_neg htrue, if_neg hfalse, if_pos hnone]; rfl⟩
  · cases h

theorem value_lBrace {fuel : Nat} {entries : List (String × DictValue)} {toks more : List Token}
    (hkeys : (entries.map Prod.fst).Nodup)
    (h : Starlark.entries fuel toks = some (entryValues entries, more)) :
    Starlark.value (fuel + 1) (.lBrace :: toks) = some ((Lit.dict entries).value, more) := by
  have hnodup : ((entryValues entries).map Prod.fst).Nodup := by
    unfold entryValues
    rw [List.map_map]
    exact hkeys
  simp only [Starlark.value, h, bind_some]
  exact if_pos hnodup

theorem value_takes {ps : List Placed} {v : Lit × List Spanned}
    (h : value endLine (ps.map spanned) = .ok v) :
    Takes ps v.2 Nat.succ Starlark.value v.1.value := by
  cases ps with
  | nil => cases h
  | cons p ps =>
    obtain ⟨tok, line, indent⟩ := p
    cases tok with
    | word w =>
      have hconst := value_word h
      refine ⟨[⟨.word w, line, indent⟩], ps, line, rfl, hconst.1, fun _ => rfl,
        fun _ => rfl, ?_⟩
      intro fuel more hfuel
      obtain ⟨fuel, rfl⟩ := Nat.exists_eq_add_of_le' hfuel
      exact hconst.2 fuel more
    | str =>
      cases h
      refine ⟨[_], ps, line, rfl, rfl, fun _ => rfl, fun _ => rfl, ?_⟩
      intro fuel more hfuel
      obtain ⟨fuel, rfl⟩ := Nat.exists_eq_add_of_le' hfuel
      rfl
    | int =>
      cases h
      refine ⟨[_], ps, line, rfl, rfl, fun _ => rfl, fun _ => rfl, ?_⟩
      intro fuel more hfuel
      obtain ⟨fuel, rfl⟩ := Nat.exists_eq_add_of_le' hfuel
      rfl
    | lBracket =>
      simp only [value, map_cons, spanned, readToken] at h
      obtain ⟨r, hr, hv⟩ := bind_eq_ok_iff.mp h
      cases hv
      obtain ⟨front, back, closing, rfl, hrest, htaken⟩ := list_takes hr
      refine ⟨⟨.lBracket, line, indent⟩ :: front, back, closing, rfl, hrest,
        fun depth => htaken.brackets (depth + 1), fun _ => htaken.closes line, ?_⟩
      intro fuel more hfuel
      obtain ⟨fuel, rfl⟩ := Nat.exists_eq_add_of_le' hfuel
      have hitems := htaken.read (fuel + front.length) more (by omega)
      exact congrArg (Option.map fun r => (Starlark.Value.list r.1, r.2)) hitems
    | lBrace =>
      simp only [value, map_cons, spanned, readToken] at h
      obtain ⟨r, hr, hv⟩ := bind_eq_ok_iff.mp h
      cases hv
      have hempty : (([] : List (String × DictValue)).map Prod.fst).Nodup := .nil
      obtain ⟨hkeys, new, hnew, front, back, closing, rfl, hrest, htaken⟩ := dict_takes hempty hr
      obtain rfl : r.1 = new := hnew
      refine ⟨⟨.lBrace, line, indent⟩ :: front, back, closing, rfl, hrest,
        fun depth => htaken.brackets (depth + 1), fun _ => htaken.closes line, ?_⟩
      intro fuel more hfuel
      obtain ⟨fuel, rfl⟩ := Nat.exists_eq_add_of_le' hfuel
      have hentries := htaken.read (fuel + front.length) more (by omega)
      exact value_lBrace hkeys hentries
    | _ => cases h

/-- The named values of the language that a call's arguments are. -/
def argValues (args : List (String × Lit × Nat)) : List (String × Starlark.Value) :=
  args.map fun a => (a.1, a.2.1.value)

theorem arguments_comma
    {fuel : Nat} {name : String} {vtoks toks more : List Token} {v : Starlark.Value}
    {vs : List (String × Starlark.Value)}
    (hv : ∀ more, Starlark.value (fuel + 1) (vtoks ++ more) = some (v, more))
    (hmore : arguments (fuel + 1) toks = some (vs, more)) :
    arguments (fuel + 2) (.word name :: .assign :: (vtoks ++ .comma :: toks)) =
      some ((name, v) :: vs, more) := by
  rw [arguments, hv]
  simp only [Starlark.itemEnd, bind_some, Bool.false_eq_true, if_false, hmore,
    map_some]

theorem arguments_end {fuel : Nat} {name : String} {vtoks : List Token} {v : Starlark.Value}
    (hv : ∀ more, Starlark.value (fuel + 1) (vtoks ++ more) = some (v, more)) (more : List Token) :
    arguments (fuel + 2) (.word name :: .assign :: (vtoks ++ .rParen :: more)) =
      some ([(name, v)], more) := by
  rw [arguments, hv]
  rfl

section Arguments

variable {p q e : Placed} {name : String} {v : Starlark.Value} {vfront front : List Placed}
variable {vline closing : Nat} {vs : List (String × Starlark.Value)}

theorem taken_comma (hp : p.tok = .word name) (hq : q.tok = .assign) (he : e.tok = .comma)
    (hv : Taken vfront Nat.succ Starlark.value v vline)
    (hmore : Taken front id arguments vs closing) :
    Taken (p :: q :: (vfront ++ e :: front)) id arguments ((name, v) :: vs) closing where
  brackets := by
    intro depth
    simp only [depths, hp, hq, depthAfter]
    rw [depths_append, hv.brackets]
    simp only [bind_some, depths, he, depthAfter]
    exact hmore.brackets depth
  closes := by
    intro line
    simp only [lastLine, lastLine_append]
    exact hmore.closes e.line
  read := by
    intro fuel more hfuel
    simp only [length_cons, length_append] at hfuel
    obtain ⟨fuel, rfl⟩ := Nat.exists_eq_add_of_le' (show 2 ≤ fuel by omega)
    have hvalue := fun more => hv.read (fuel + 1) more (by omega)
    have hrest := hmore.read (fuel + 1) more (by omega)
    simp only [map_cons, map_append, cons_append, append_assoc, hp, hq, he]
    exact arguments_comma hvalue hrest

theorem taken_end (hp : p.tok = .word name) (hq : q.tok = .assign) (he : e.tok = .rParen)
    (hv : Taken vfront Nat.succ Starlark.value v vline) :
    Taken (p :: q :: (vfront ++ [e])) id arguments [(name, v)] e.line where
  brackets := by
    intro depth
    simp only [depths, hp, hq, depthAfter]
    rw [depths_append, hv.brackets]
    simp only [bind_some, depths, he, depthAfter]
    rfl
  closes := by
    intro line
    simp only [lastLine, lastLine_append]
  read := by
    intro fuel more hfuel
    simp only [length_cons, length_append, length_nil] at hfuel
    obtain ⟨fuel, rfl⟩ := Nat.exists_eq_add_of_le' (show 2 ≤ fuel by omega)
    have hvalue := fun more => hv.read (fuel + 1) more (by omega)
    simp only [map_cons, map_append, cons_append, append_assoc, hp, hq, he]
    exact arguments_end hvalue more

end Arguments

/-- The arguments of a call, up to the bracket that closes it. -/
theorem args_takes {fuel : Nat} {acc : List (String × Lit × Nat)} {ps : List Placed} {r : ArgsRead}
    (hacc : (acc.map Prod.fst).Nodup) (h : args endLine fuel acc (ps.map spanned) = .ok r) :
    (r.1.map Prod.fst).Nodup ∧ ∃ new front back, r.1 = acc ++ new ∧ ps = front ++ back ∧
      r.2.2 = back.map spanned ∧ Taken front id arguments (argValues new) r.2.1 := by
  induction fuel generalizing acc ps r with
  | zero => cases h
  | succ fuel ih =>
    cases ps with
    | nil => cases h
    | cons p ps =>
      obtain ⟨tok, line, indent⟩ := p
      cases tok with
      | rParen =>
        cases h
        refine ⟨hacc, [], [_], ps, (append_nil acc).symm, rfl, rfl,
          fun depth => rfl, fun line => rfl, ?_⟩
        intro fuel more hfuel
        obtain ⟨fuel, rfl⟩ := Nat.exists_eq_add_of_le' hfuel
        rfl
      | word name =>
        cases ps with
        | nil => cases h
        | cons q ps =>
          obtain ⟨etok, eline, eindent⟩ := q
          cases etok with
          | assign =>
            simp only [args, map_cons, spanned, readToken] at h
            obtain ⟨⟨v, rest⟩, hvalue, hpair⟩ := bind_eq_ok_iff.mp h
            obtain ⟨vfront, ps, vline, rfl, hrest, hv⟩ := value_takes hvalue
            cases hrest
            split at hpair
            · cases hpair
            next hnew =>
            have hnodup := nodup_snoc (v := (v, line)) hacc hnew
            cases ps with
            | nil => cases hpair
            | cons e ps =>
              obtain ⟨stop, sline, sindent⟩ := e
              cases stop with
              | comma =>
                obtain ⟨hkeys, new, front, back, hnews, rfl, hrest, htaken⟩ := ih hnodup hpair
                refine ⟨hkeys, (name, v, line) :: new,
                  ⟨.word name, line, indent⟩ :: ⟨.assign, eline, eindent⟩ ::
                    (vfront ++ ⟨.comma, sline, sindent⟩ :: front), back,
                  by rw [hnews, append_assoc]; rfl, by simp, hrest, ?_⟩
                exact taken_comma rfl rfl rfl hv htaken
              | rParen =>
                cases hpair
                refine ⟨hnodup, [(name, v, line)],
                  ⟨.word name, line, indent⟩ :: ⟨.assign, eline, eindent⟩ ::
                    (vfront ++ [⟨.rParen, sline, sindent⟩]), ps, rfl, by simp,
                  rfl, ?_⟩
                exact taken_end rfl rfl rfl hv
              | _ => cases hpair
          | _ => cases h
      | _ => cases h

end Values

end ComponentsCatalog
end StudioWeb
