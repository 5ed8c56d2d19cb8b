import StudioWeb.ComponentsCatalog.PassportTokens

/-!
# A passport as a Starlark file

What `read_call` takes of a text, against what the text does as a Starlark file.  The reader
does not see how the text is laid out, and the language does.
-/

namespace StudioWeb
namespace ComponentsCatalog

open Option Starlark
open Rust (bind_eq_ok_iff)
open Starlark (Token Placed Effects lastLine WellLaid breakLines)

section Statements

open Starlark (LaidBy statementsFrom)

variable {file : String} {calls : List String} {since : String} {endLine : Nat}

/-- What the text has done so far, as a file of the language. -/
def Reading.effects (r : Reading) : Effects where
  assigned := r.version.toList.map fun v => ("gdl_version", .str v)
  called := r.call.toList.map fun c => (c.name, argValues c.args)

/-- A statement as `read_call` takes it: how its tokens are laid out, and what it does. -/
structure TakesStatement (p : Placed) (front : List Placed) (r after : Reading) : Prop where
  fresh : p.line ≠ r.lastLine
  layout : ∃ together, LaidBy together p front
  closes : ∀ line, lastLine line front = after.lastLine
  does : ∃ st, statement (front.map Placed.tok) = some st ∧
    r.effects.add st = after.effects

variable {r : Reading} {ps : List Placed} {next : Reading × List Spanned} {fuel : Nat}

theorem readVersion_takes {p q : Placed} {name : String} (hp : p.tok = .word name) (hq : q.tok = .assign)
    (hfresh : p.line ≠ r.lastLine) (h : readVersion r name p.line (ps.map spanned) = .ok next) :
    ∃ front back, p :: q :: ps = front ++ back ∧ next.2 = back.map spanned ∧
      TakesStatement p front r next.1 := by
  unfold readVersion at h
  split at h
  · cases h
  next hname =>
  obtain rfl : name = "gdl_version" := not_not.mp hname
  split at h
  · cases h
  next hversion =>
  have hnone : r.version = none := not_isSome_iff_eq_none.mp hversion
  cases ps with
  | nil => cases h
  | cons v ps =>
    obtain ⟨tok, line, indent⟩ := v
    cases tok with
    | str s =>
      cases h
      refine ⟨[p, q, ⟨.str s, line, indent⟩], ps, rfl, rfl, hfresh,
        ⟨_, laid_assign hp hq rfl⟩, fun _ => rfl,
        .assign "gdl_version" (.str s), ?_, ?_⟩
      · simp [statement, hp, hq, Starlark.value]
      · simp [Reading.effects, Effects.add, hnone]
    | _ => cases h

theorem readDeclaration_takes {p q : Placed} {name : String} (hp : p.tok = .word name) (hq : q.tok = .lParen)
    (hfresh : p.line ≠ r.lastLine)
    (h : readDeclaration file calls endLine r name p.line (ps.map spanned) = .ok next) :
    ∃ front back, p :: q :: ps = front ++ back ∧ next.2 = back.map spanned ∧
      TakesStatement p front r next.1 := by
  unfold readDeclaration at h
  split at h
  · cases h
  split at h
  · cases h
  split at h
  · cases h
  next hnone =>
  obtain ⟨a, ha, hr⟩ := bind_eq_ok_iff.mp h
  cases hr
  have hempty : (([] : List (String × Lit × Nat)).map Prod.fst).Nodup := .nil
  obtain ⟨hkeys, new, front, back, hnew, rfl, hrest, htaken⟩ := args_takes hempty ha
  obtain rfl : a.1 = new := hnew
  refine ⟨p :: q :: front, back, rfl, hrest, hfresh,
    ⟨_, laid_call hp hq (htaken.brackets 0)⟩, fun _ => htaken.closes q.line,
    .call name (argValues a.1), ?_, ?_⟩
  · have hargs := htaken.read (front.length + 1) [] (Nat.le_succ _)
    have hnodup : ((argValues a.1).map Prod.fst).Nodup := by
      unfold argValues
      rw [List.map_map]
      exact hkeys
    rw [List.append_nil] at hargs
    simp [statement, hp, hq, hargs, hnodup]
  · simp [Reading.effects, Effects.add, hnone]

theorem readStatement_takes {p : Placed}
    (h : readStatement file calls since endLine r (readToken p.tok) p.line
      (ps.map spanned) = .ok next) :
    ∃ front back, p :: ps = front ++ back ∧ next.2 = back.map spanned ∧
      TakesStatement p front r next.1 := by
  unfold readStatement at h
  split at h
  · cases h
  next hfresh =>
  obtain ⟨tok, line, indent⟩ := p
  cases tok with
  | word =>
    simp only [readToken] at h
    split at h
    · cases h
    cases ps with
    | nil => cases h
    | cons q =>
      obtain ⟨qtok, qline, qindent⟩ := q
      cases qtok with
      | assign => exact readVersion_takes rfl rfl hfresh h
      | lParen => exact readDeclaration_takes rfl rfl hfresh h
      | _ => cases h
  | _ => cases h

theorem readStatements_fresh {r final : Reading}
    (h : readStatements file calls since endLine fuel r (ps.map spanned) = .ok final) :
    (breakLines 0 r.lastLine ps).1 = [] := by
  cases fuel with
  | zero => cases h
  | succ =>
    cases ps with
    | nil => rfl
    | cons =>
      obtain ⟨next, hnext, -⟩ := bind_eq_ok_iff.mp h
      obtain ⟨front, back, -, -, htakes⟩ := readStatement_takes hnext
      simp [breakLines, htakes.fresh]

/-- The statements that `read_call` takes are those of the language where they are laid out
well, and the language has none where they are not. -/
theorem readStatements_statements {r final : Reading}
    (h : readStatements file calls since endLine fuel r (ps.map spanned) = .ok final) :
    (WellLaid 0 r.lastLine ps → ∃ sts, statementsFrom r.lastLine ps = some sts ∧
        sts.foldl Effects.add r.effects = final.effects) ∧
      (¬ WellLaid 0 r.lastLine ps → statementsFrom r.lastLine ps = none) := by
  induction fuel generalizing r ps with
  | zero => cases h
  | succ _ ih =>
    cases ps with
    | nil =>
      cases h
      exact ⟨fun _ => ⟨[], rfl, rfl⟩, fun hnot => absurd trivial hnot⟩
    | cons p =>
      obtain ⟨next, hnext, hmore⟩ := bind_eq_ok_iff.mp h
      obtain ⟨front, back, hps, hrest, htakes⟩ := readStatement_takes hnext
      obtain ⟨together, hlaid⟩ := htakes.layout
      obtain ⟨st, hst, hdoes⟩ := htakes.does
      rw [hrest] at hmore
      obtain ⟨hgood, hbad⟩ := ih hmore
      have hback := readStatements_fresh hmore
      rw [← htakes.closes r.lastLine] at hgood hbad hback
      rw [hps, hlaid.laid r.lastLine back htakes.fresh]
      constructor
      · rintro ⟨⟨hindent, htogether⟩, hwell⟩
        obtain ⟨sts, hsts, heffects⟩ := hgood hwell
        refine ⟨st :: sts, ?_, ?_⟩
        · rw [statementsFrom_whole hlaid htakes.fresh hindent htogether hback hst, hsts]
          rfl
        · rw [List.foldl_cons, hdoes, heffects]
      · intro hnot
        by_cases hfirst : p.indent = 0 ∧ together
        · have hwell : ¬ WellLaid 0 (lastLine r.lastLine front) back :=
            fun hwell => hnot ⟨hfirst, hwell⟩
          rw [statementsFrom_whole hlaid htakes.fresh hfirst.1 hfirst.2 hback hst,
            hbad hwell]
          rfl
        · exact statementsFrom_none hlaid htakes.fresh hfirst hback

theorem readStatement_declared {tok : Tok} {line : Nat} {rest : List Spanned} (hcall : ∀ c, r.call = some c → c.name ∈ calls)
    (h : readStatement file calls since endLine r tok line rest = .ok next) :
    ∀ c, next.1.call = some c → c.name ∈ calls := by
  unfold readStatement at h
  split at h
  · cases h
  split at h
  · split at h
    · cases h
    split at h
    · unfold readVersion at h
      split at h
      · cases h
      split at h
      · cases h
      split at h
      · cases h
        exact hcall
      · cases h
    · unfold readDeclaration at h
      split at h
      · cases h
      split at h
      · cases h
      next hmem =>
      split at h
      · cases h
      · obtain ⟨a, -, hr⟩ := bind_eq_ok_iff.mp h
        cases hr
        rintro c hc
        cases hc
        exact not_not.mp hmem
    · cases h
  · cases h

theorem readStatements_declared {r final : Reading} {toks : List Spanned}
    (hcall : ∀ c, r.call = some c → c.name ∈ calls)
    (h : readStatements file calls since endLine fuel r toks = .ok final) :
    ∀ c, final.call = some c → c.name ∈ calls := by
  induction fuel generalizing r toks with
  | zero => cases h
  | succ _ ih =>
    cases toks with
    | nil =>
      cases h
      exact hcall
    | cons =>
      obtain ⟨next, hnext, hmore⟩ := bind_eq_ok_iff.mp h
      exact ih (readStatement_declared hcall hnext) hmore

end Statements

section Passports

/-- `FORBIDDEN_KEYWORDS` of the vocabulary. -/
def FORBIDDEN_KEYWORDS : List String :=
  ["and", "break", "continue", "def", "elif", "else", "for", "if", "in", "lambda", "not", "or",
    "pass", "return"]

/-- `RESERVED_KEYWORDS` of the vocabulary. -/
def RESERVED_KEYWORDS : List String :=
  ["as", "assert", "async", "await", "class", "del", "except", "finally", "from", "global",
    "import", "is", "nonlocal", "raise", "try", "while", "with", "yield"]

/-- `IMPORT_KEYWORD` of the vocabulary. -/
def IMPORT_KEYWORD : String := "load"

/-- The words that Starlark keeps for itself. -/
def reservedWords : List String := IMPORT_KEYWORD :: (FORBIDDEN_KEYWORDS ++ RESERVED_KEYWORDS)

/-- A function that a passport may call is no constant, and not the version. -/
def isDeclaration (name : String) : Bool := name ∉ Starlark.CONSTANTS && name ≠ "gdl_version"

/-- The text is a file of the language that sets the version once and makes that one call. -/
def SameInStarlark (since src : String) (call : Call) : Prop :=
  ∃ v, readsVersion v since = true ∧ run reservedWords src.toList =
      some ⟨[("gdl_version", .str v)], [(call.name, argValues call.args)]⟩

/-- No number has a leading zero, no name is a reserved word, outside brackets no line is
indented, and none breaks after a word or a `=`. -/
def LaidOut (src : String) : Prop :=
  ∃ placed, tokens src.toList = some placed ∧
    (placed.all fun p => p.tok.isLegal reservedWords) = true ∧ WellLaid 0 0 placed

instance decidableLaidOut (src : String) : Decidable (LaidOut src) :=
  match h : tokens src.toList with
  | none => isFalse fun ⟨_, hplaced, _⟩ => nomatch h.symm.trans hplaced
  | some placed =>
    decidable_of_iff ((placed.all fun p => p.tok.isLegal reservedWords) = true ∧
        WellLaid 0 0 placed)
      ⟨fun hlaid => ⟨placed, h, hlaid⟩, fun ⟨_, hplaced, hlaid⟩ =>
        some.inj (h.symm.trans hplaced) ▸ hlaid⟩

variable {file : String} {calls : List String} {since src : String} {call : Call}

theorem accept_spec {r : Reading} (h : accept file calls since r = .ok call) :
    ∃ v, r.version = some v ∧ readsVersion v since = true ∧ r.call = some call := by
  unfold accept at h
  split at h
  · next v hv =>
    split at h
    · next hreads =>
      split at h
      · next _ hc =>
        cases h
        exact ⟨v, hv, hreads, hc⟩
      · cases h
    · cases h
  · cases h

/-- A text that `read_call` takes does the same as a file of the language if and only if it
is laid out as one. -/
theorem sameInStarlark_iff (hcalls : ∀ name ∈ calls, isDeclaration name = true)
    (h : readCall file calls since src = .ok call) :
    SameInStarlark since src call ↔ LaidOut src := by
  obtain ⟨toks, hlex, hread⟩ := bind_eq_ok_iff.mp h
  obtain ⟨final, hfinal, haccept⟩ := bind_eq_ok_iff.mp hread
  obtain ⟨v, hversion, hreads, hcall⟩ := accept_spec haccept
  obtain ⟨placed, hscan, rfl⟩ := scan_of_lexLoop hlex 0
  have htokens : tokens src.toList = some placed := hscan
  obtain ⟨hgood, hbad⟩ := readStatements_statements hfinal
  have hempty : Reading.effects ⟨none, none, 0⟩ = ⟨[], []⟩ := rfl
  have heffects : final.effects =
      ⟨[("gdl_version", .str v)], [(call.name, argValues call.args)]⟩ := by
    unfold Reading.effects
    rw [hversion, hcall]
    rfl
  have hstart : ∀ c, Reading.call ⟨none, none, 0⟩ = some c → c.name ∈ calls := by
    intro c hc
    cases hc
  have hname : isDeclaration call.name = true :=
    hcalls _ (readStatements_declared hstart hfinal call hcall)
  have hsound : final.effects.isSound = true := by
    rw [heffects]
    simpa [Effects.isSound, isDeclaration] using hname
  constructor
  · rintro ⟨v', -, hrun⟩
    unfold run at hrun
    rw [htokens, bind_some] at hrun
    split at hrun
    · next hlegal =>
      refine ⟨placed, htokens, hlegal, ?_⟩
      by_contra hnot
      have hnone : statements placed = none := hbad hnot
      rw [hnone] at hrun
      cases hrun
    · cases hrun
  · rintro ⟨placed', hplaced', hlegal, hwell⟩
    obtain rfl : placed = placed' := some.inj (htokens.symm.trans hplaced')
    obtain ⟨sts, hsts, hdoes⟩ := hgood hwell
    have hstatements : statements placed = some sts := hsts
    rw [hempty] at hdoes
    refine ⟨v, hreads, ?_⟩
    unfold run
    rw [htokens, bind_some, if_pos hlegal, hstatements, bind_some]
    dsimp only
    rw [hdoes, if_pos hsound, heffects]

end Passports

end ComponentsCatalog
end StudioWeb
