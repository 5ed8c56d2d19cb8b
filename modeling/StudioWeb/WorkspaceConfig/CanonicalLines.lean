import StudioWeb.WorkspaceConfig.CanonicalToml

/-!
# The lines of a canonical config, as TOML reads them

Each line that `renderCanonicalToml` pushes, and the text it makes of them.
-/

namespace StudioWeb
namespace WorkspaceConfig

open List Toml
open JsonText (escapeChar renderString hexDigit)
open Toml (Value Table isBareChar isControl)

/-- A text without the one character that `JSON.stringify` leaves and TOML refuses. -/
def isTomlText (s : String) : Bool := s.toList.all fun c => c.toNat ≠ 127

theorem unicode_hexDigit {n : Nat} (h : n < 32) :
    unicode '0' '0' (hexDigit (n / 16)) (hexDigit (n % 16)) = some (Char.ofNat n) := by
  revert n
  decide

theorem basicString_letter {letter said : Char} {rest : List Char} {r : List Char × List Char}
    (hu : letter ≠ 'u') (hsaid : escape letter = some said) (h : basicString rest = some r) :
    basicString ('\x5c' :: letter :: rest) = some (said :: r.1, r.2) := by
  rw [basicString, hsaid, h]
  · rfl
  · exact fun _ _ _ _ _ heq _ => hu heq

theorem basicString_unicode {a b c d said : Char} {rest : List Char} {r : List Char × List Char}
    (hsaid : unicode a b c d = some said) (h : basicString rest = some r) :
    basicString ('\x5c' :: 'u' :: a :: b :: c :: d :: rest) =
      some (said :: r.1, r.2) := by
  rw [basicString, hsaid, h]
  rfl

theorem basicString_plain {c : Char} {rest : List Char} {r : List Char × List Char}
    (hquote : c ≠ '\x22') (hslash : c ≠ '\x5c') (hcontrol : isControl c = false)
    (h : basicString rest = some r) : basicString (c :: rest) = some (c :: r.1, r.2) := by
  rw [basicString, if_neg (by rw [hcontrol]; exact Bool.false_ne_true), h]
  · rfl
  · exact hquote
  · exact fun _ _ _ _ _ heq _ => hslash heq
  · exact fun _ _ heq _ => hslash heq

theorem basicString_escapeChar {c : Char} {rest : List Char} {r : List Char × List Char}
    (hc : c.toNat ≠ 127) (h : basicString rest = some r) :
    basicString (escapeChar c ++ rest) = some (c :: r.1, r.2) := by
  unfold escapeChar
  cases hfind : JsonText.escapes.find? (fun e => e.2 = c) with
  | some e =>
    obtain ⟨letter, said⟩ := e
    have hmem : (letter, said) ∈ JsonText.escapes := mem_of_find?_eq_some hfind
    have hsaid : said = c := by
      have hcond := find?_some hfind
      exact of_decide_eq_true hcond
    subst hsaid
    simp only [JsonText.escapes, mem_cons, Prod.mk.injEq, not_mem_nil, or_false] at hmem
    rcases hmem with ⟨rfl, rfl⟩ | ⟨rfl, rfl⟩ | ⟨rfl, rfl⟩ | ⟨rfl, rfl⟩ | ⟨rfl, rfl⟩ |
      ⟨rfl, rfl⟩ | ⟨rfl, rfl⟩ <;> exact basicString_letter (by decide) rfl h
  | none =>
    have hplain : ∀ e ∈ JsonText.escapes, e.2 ≠ c := by
      intro e he heq
      have hcond := find?_eq_none.mp hfind e he
      exact hcond (decide_eq_true heq)
    dsimp only
    split
    · next hcontrol =>
      have hunicode := unicode_hexDigit hcontrol
      rw [Char.ofNat_toNat] at hunicode
      exact basicString_unicode hunicode h
    · next hcontrol =>
      have hquote : c ≠ '\x22' := (hplain ('\x22', '\x22') (by decide)).symm
      have hslash : c ≠ '\x5c' := (hplain ('\x5c', '\x5c') (by decide)).symm
      have hfree : isControl c = false := by
        unfold isControl
        simp [hcontrol, hc]
      exact basicString_plain hquote hslash hfree h

theorem basicString_quoted {text : List Char} (rest : List Char)
    (htext : ∀ c ∈ text, c.toNat ≠ 127) :
    basicString (text.flatMap escapeChar ++ '\x22' :: rest) = some (text, rest) := by
  induction text with
  | nil => exact basicString.eq_2 rest
  | cons c _ ih =>
    rw [flatMap_cons, append_assoc]
    exact basicString_escapeChar (htext c mem_cons_self)
      (ih fun d hd => htext d (mem_cons_of_mem c hd))

theorem head_escapeChar (c : Char) : ∃ d more, escapeChar c = d :: more ∧ d ≠ '\x22' := by
  unfold escapeChar
  cases hfind : JsonText.escapes.find? (fun e => e.2 = c) with
  | some e => exact ⟨'\x5c', [e.1], rfl, by decide⟩
  | none =>
    have hquote : c ≠ '\x22' := by
      intro heq
      have hcond := find?_eq_none.mp hfind ('\x22', '\x22') (by decide)
      exact hcond (decide_eq_true heq.symm)
    dsimp only
    split
    · exact ⟨_, _, rfl, by decide⟩
    · exact ⟨c, [], rfl, hquote⟩

theorem not_triple_quoted {text rest more : List Char} (hrest : rest.head? ≠ some '\x22') :
    text.flatMap escapeChar ++ '\x22' :: rest ≠ '\x22' :: '\x22' :: more := by
  intro htriple
  cases text with
  | nil =>
    rw [(List.cons.inj htriple).2] at hrest
    exact hrest rfl
  | cons c =>
    obtain ⟨d, tail, hd, hne⟩ := head_escapeChar c
    rw [flatMap_cons, hd] at htriple
    exact hne (List.cons.inj htriple).1

theorem value_quote {fuel : Nat} {s : String} {rest : List Char} (hs : isTomlText s = true)
    (hrest : rest.head? ≠ some '\x22') :
    value (fuel + 1) (quote s ++ rest) = some (.str s, rest) := by
  have htext : ∀ c ∈ s.toList, c.toNat ≠ 127 := by
    intro c hc
    exact of_decide_eq_true (all_eq_true.mp hs c hc)
  have hbasic := basicString_quoted rest htext
  have hquote : quote s ++ rest = '\x22' :: (s.toList.flatMap escapeChar ++ '\x22' :: rest) := by
    unfold quote renderString
    simp
  rw [hquote, value, hbasic]
  · simp
  · intro more htriple
    exact not_triple_quoted hrest htriple

def isBareKey (w : String) : Bool := w ≠ "" && w.toList.all isBareChar

theorem plain_of_bare {c : Char} (h : isBareChar c = true) :
    c ≠ '\x22' ∧ c ≠ '\'' ∧ c ≠ ' ' ∧ c ≠ '\t' ∧ c ≠ '#' ∧ c ≠ '[' ∧ c ≠ '.' ∧ c ≠ '\n' ∧
      c ≠ '\r' := by
  refine ⟨?_, ?_, ?_, ?_, ?_, ?_, ?_, ?_, ?_⟩ <;>
    · rintro rfl
      exact absurd h (by decide)

theorem takeWhile_bare {text rest : List Char} (htext : text.all isBareChar = true)
    (hrest : rest.head?.all (fun c => !isBareChar c) = true) :
    (text ++ rest).takeWhile isBareChar = text ∧
      (text ++ rest).dropWhile isBareChar = rest := by
  have hall : ∀ c ∈ text, isBareChar c = true := all_eq_true.mp htext
  rw [takeWhile_append_of_pos hall, dropWhile_append_of_pos hall]
  cases rest with
  | nil => simp
  | cons c =>
    have hc : ¬ isBareChar c = true := by
      simpa using hrest
    rw [takeWhile_cons_of_neg hc, dropWhile_cons_of_neg hc, append_nil]
    exact ⟨rfl, rfl⟩

theorem exists_cons_of_bareKey {w : String} (hw : isBareKey w = true) :
    ∃ c tail, w.toList = c :: tail ∧ isBareChar c = true ∧ w.toList.all isBareChar = true := by
  obtain ⟨hne, hall⟩ := Bool.and_eq_true_iff.mp hw
  cases htext : w.toList with
  | nil => exact absurd (String.toList_eq_nil_iff.mp htext) (of_decide_eq_true hne)
  | cons c tail =>
    rw [htext] at hall
    exact ⟨c, tail, rfl, all_eq_true.mp hall c mem_cons_self, hall⟩

theorem key_bare {w : String} {rest : List Char} (hw : isBareKey w = true)
    (hrest : rest.head?.all (fun c => !isBareChar c) = true) :
    key (w.toList ++ rest) = some (w, rest) := by
  obtain ⟨c, tail, htext, hc, hall⟩ := exists_cons_of_bareKey hw
  obtain ⟨htake, hdrop⟩ := takeWhile_bare hall hrest
  obtain ⟨hquote, hliteral, -⟩ := plain_of_bare hc
  rw [key]
  · rw [htake, hdrop, String.ofList_toList, if_neg]
    rw [htext]
    exact cons_ne_nil c tail
  · intro more heq
    rw [htext] at heq
    exact hquote (List.cons.inj heq).1
  · intro more heq
    rw [htext] at heq
    exact hliteral (List.cons.inj heq).1

theorem keys_one {fuel : Nat} {k : String} {text after rest : List Char}
    (hkey : key text = some (k, after)) (hafter : skipBlanks after = rest)
    (hdot : rest.head? ≠ some '.') : Toml.keys (fuel + 1) text = some ([k], rest) := by
  rw [Toml.keys, hkey, Option.bind_some]
  dsimp only
  rw [hafter]
  split
  · exact absurd rfl hdot
  · rfl

theorem keys_dot {fuel : Nat} {k : String} {text rest : List Char} {r : List String × List Char}
    (hkey : key text = some (k, '.' :: rest)) (hmore : Toml.keys fuel (skipBlanks rest) = some r) :
    Toml.keys (fuel + 1) text = some (k :: r.1, r.2) := by
  rw [Toml.keys, hkey, Option.bind_some]
  have hskip : skipBlanks ('.' :: rest) = '.' :: rest := rfl
  rw [hskip]
  exact congrArg (Option.map fun r => (k :: r.1, r.2)) hmore

theorem keys_pair {fuel : Nat} {k : String} {written after : List Char}
    (hkey : key (written ++ ' ' :: '=' :: after) = some (k, ' ' :: '=' :: after)) :
    Toml.keys (fuel + 1) (written ++ ' ' :: '=' :: after) = some ([k], '=' :: after) :=
  keys_one hkey rfl (by simp)

theorem readLine_pair {k : String} {c : Char} {tail after : List Char} {v : Value}
    (hblank : c ≠ ' ') (htab : c ≠ '\t') (hcomment : c ≠ '#') (hbracket : c ≠ '[')
    (hkey : key (c :: tail ++ ' ' :: '=' :: ' ' :: after) =
      some (k, ' ' :: '=' :: ' ' :: after))
    (hstart : skipBlanks after = after)
    (hvalue : ∀ fuel, after.length ≤ fuel → value (fuel + 1) after = some (v, [])) :
    readLine (c :: tail ++ ' ' :: '=' :: ' ' :: after) = some (.pair ([k], v)) := by
  have hskip : skipBlanks (c :: tail ++ ' ' :: '=' :: ' ' :: after) =
      c :: (tail ++ ' ' :: '=' :: ' ' :: after) := by
    unfold skipBlanks
    rw [cons_append, dropWhile_cons_of_neg (by simp [hblank, htab])]
  have hkeys := @keys_pair (c :: tail ++ ' ' :: '=' :: ' ' :: after).length _ _ _ hkey
  have hafter : skipBlanks (' ' :: after) = after := hstart
  have hread := hvalue (' ' :: after).length (Nat.le_succ _)
  unfold readLine
  rw [hskip]
  dsimp only
  rw [if_neg hcomment, if_neg hbracket]
  unfold pairLine
  rw [← cons_append, hkeys, Option.bind_some]
  have hequals : skipBlanks ('=' :: ' ' :: after) = '=' :: ' ' :: after := rfl
  rw [hequals]
  change ((value ((' ' :: after).length + 1) (skipBlanks (' ' :: after))).bind fun v =>
    if endsLine v.2 then some (Toml.Line.pair ([k], v.1)) else none) = _
  rw [hafter, hread]
  rfl

theorem readLine_bare {k : String} {after : List Char} {v : Value} (hk : isBareKey k = true)
    (hstart : skipBlanks after = after)
    (hvalue : ∀ fuel, after.length ≤ fuel → value (fuel + 1) after = some (v, [])) :
    readLine (k.toList ++ " = ".toList ++ after) = some (.pair ([k], v)) := by
  obtain ⟨c, tail, htext, hc, -⟩ := exists_cons_of_bareKey hk
  obtain ⟨-, -, hblank, htab, hcomment, hbracket, -⟩ := plain_of_bare hc
  have hkey : key (k.toList ++ ' ' :: '=' :: ' ' :: after) =
      some (k, ' ' :: '=' :: ' ' :: after) := key_bare hk rfl
  have hline : k.toList ++ " = ".toList ++ after = k.toList ++ ' ' :: '=' :: ' ' :: after := by
    rw [append_assoc]
    rfl
  rw [hline]
  rw [htext] at hkey ⊢
  exact readLine_pair hblank htab hcomment hbracket hkey hstart hvalue

theorem skipBlanks_quote (s : String) : skipBlanks (quote s) = quote s := by
  rfl

theorem value_quoted {s : String} (hs : isTomlText s = true) (fuel : Nat) :
    value (fuel + 1) (quote s) = some (.str s, []) := by
  have hvalue := @value_quote fuel s [] hs nofun
  rwa [append_nil] at hvalue

theorem readLine_text {k s : String} (hk : isBareKey k = true) (hs : isTomlText s = true) :
    readLine (k.toList ++ " = ".toList ++ quote s) = some (.pair ([k], .str s)) :=
  readLine_bare hk (skipBlanks_quote s) fun fuel _ => value_quoted hs fuel

/-- A host that is written as a key that says it: a bare key, or a text in which no character
of a bare key stands. -/
def isHostKey (h : String) : Bool := isBareKey h || !h.toList.any isBareChar && isTomlText h

theorem readLine_host {h s : String} (hh : isHostKey h = true) (hs : isTomlText s = true) :
    readLine (hostLine (h, s)) = some (.pair ([h], .str s)) := by
  unfold hostLine quoteKey
  rcases Bool.or_eq_true_iff.mp hh with hbare | hquoted
  · obtain ⟨c, tail, htext, hc, -⟩ := exists_cons_of_bareKey hbare
    have hany : h.toList.any isBareChar = true := by
      rw [htext]
      exact any_eq_true.mpr ⟨c, mem_cons_self, hc⟩
    rw [if_pos hany]
    exact readLine_text hbare hs
  · obtain ⟨hnone, htoml⟩ := Bool.and_eq_true_iff.mp hquoted
    have hnot : ¬ h.toList.any isBareChar = true := by
      simpa using hnone
    rw [if_neg hnot]
    have hchars : ∀ c ∈ h.toList, c.toNat ≠ 127 := by
      intro c hc
      exact of_decide_eq_true (all_eq_true.mp htoml c hc)
    have hkey : key (quote h ++ ' ' :: '=' :: ' ' :: quote s) =
        some (h, ' ' :: '=' :: ' ' :: quote s) := by
      have hbasic := basicString_quoted (' ' :: '=' :: ' ' :: quote s) hchars
      have htext : quote h ++ ' ' :: '=' :: ' ' :: quote s =
          '\x22' :: (h.toList.flatMap escapeChar ++ '\x22' :: ' ' :: '=' :: ' ' :: quote s) := by
        unfold quote renderString
        simp
      rw [htext, key, hbasic]
      simp
    have hline : quote h ++ " = ".toList ++ quote s = quote h ++ ' ' :: '=' :: ' ' :: quote s := by
      rw [append_assoc]
      rfl
    rw [hline]
    exact readLine_pair (by decide) (by decide) (by decide) (by decide) hkey
      (skipBlanks_quote s) fun fuel _ => value_quoted hs fuel

theorem readLine_bool {k : String} (hk : isBareKey k = true) (b : Bool) :
    readLine (k.toList ++ " = ".toList ++ (if b then "true" else "false").toList) =
      some (.pair ([k], .bool b)) := by
  cases b with
  | true => exact readLine_bare hk rfl fun _ _ => rfl
  | false => exact readLine_bare hk rfl fun _ _ => rfl

theorem items_end {fuel : Nat} {text rest : List Char} {v : Value} (hstart : text.head? ≠ some ']')
    (hvalue : value fuel text = some (v, ']' :: rest)) :
    items (fuel + 1) text = some ([v], rest) := by
  rw [items, hvalue]
  · rfl
  · intro more heq
    rw [heq] at hstart
    exact hstart rfl

theorem items_comma {fuel : Nat} {text rest : List Char} {v : Value} {r : List Value × List Char}
    (hstart : text.head? ≠ some ']') (hvalue : value fuel text = some (v, ',' :: rest))
    (hmore : items fuel (skipBlanks rest) = some r) :
    items (fuel + 1) text = some (v :: r.1, r.2) := by
  rw [items, hvalue]
  · exact congrArg (Option.map fun r => (v :: r.1, r.2)) hmore
  · intro more heq
    rw [heq] at hstart
    exact hstart rfl

theorem intercalate_quoted (l m : String) (ls : List String) :
    ", ".toList.intercalate ((l :: m :: ls).map quote) ++ [']'] =
      quote l ++ ',' :: ' ' :: (", ".toList.intercalate ((m :: ls).map quote) ++ [']']) := by
  rw [map_cons, map_cons, intercalate_cons_cons, append_assoc,
    append_assoc]
  rfl

theorem exists_intercalate_quoted (l : String) (ls : List String) :
    ∃ more, ", ".toList.intercalate ((l :: ls).map quote) ++ [']'] = '\x22' :: more := by
  cases ls with
  | nil => exact ⟨_, rfl⟩
  | cons =>
    rw [intercalate_quoted]
    exact ⟨_, rfl⟩

theorem head_quote (s : String) (rest : List Char) : (quote s ++ rest).head? ≠ some ']' := by
  change some '\x22' ≠ some ']'
  decide

theorem items_quoted {fuel : Nat} {l : String} {ls : List String}
    (hls : ∀ s ∈ l :: ls, isTomlText s = true) (hfuel : (l :: ls).length < fuel) :
    items fuel (", ".toList.intercalate ((l :: ls).map quote) ++ [']']) =
      some ((l :: ls).map .str, []) := by
  induction ls generalizing l fuel with
  | nil =>
    obtain ⟨fuel, rfl⟩ := Nat.exists_eq_add_of_le' hfuel
    have hvalue := @value_quote fuel l [']'] (hls l mem_cons_self) (by decide)
    rw [map_singleton, intercalate_singleton]
    exact items_end (head_quote l [']']) hvalue
  | cons m ls ih =>
    obtain ⟨fuel, rfl⟩ := Nat.exists_eq_add_of_le' hfuel
    obtain ⟨more, hmore⟩ := exists_intercalate_quoted m ls
    have hrest := ih (fun s hs => hls s (mem_cons_of_mem l hs))
      (show (m :: ls).length < fuel + (m :: ls).length + 1 by omega)
    have hvalue := @value_quote (fuel + (m :: ls).length) l
      (',' :: ' ' :: (", ".toList.intercalate ((m :: ls).map quote) ++ [']']))
      (hls l mem_cons_self) (by simp)
    have hskip : skipBlanks (' ' :: (", ".toList.intercalate ((m :: ls).map quote) ++ [']'])) =
          ", ".toList.intercalate ((m :: ls).map quote) ++ [']'] := by
      rw [hmore]
      rfl
    rw [intercalate_quoted]
    rw [← hskip] at hrest
    exact items_comma (head_quote l _) hvalue hrest

theorem length_intercalate_quoted (l : String) (ls : List String) :
    (l :: ls).length < (", ".toList.intercalate ((l :: ls).map quote) ++ [']']).length := by
  induction ls generalizing l with
  | nil =>
    simp [quote, renderString]
  | cons m _ ih =>
    have hrest := ih m
    rw [intercalate_quoted]
    simp only [length_append, length_cons] at hrest ⊢
    omega

theorem readLine_languages {l : String} {ls : List String}
    (hls : ∀ s ∈ l :: ls, isTomlText s = true) :
    readLine ("allowed_content_languages = [".toList ++
        ", ".toList.intercalate ((l :: ls).map quote) ++ [']']) =
      some (.pair (["allowed_content_languages"], .arr ((l :: ls).map .str))) := by
  have hlength := length_intercalate_quoted l ls
  have hline : "allowed_content_languages = [".toList ++
      ", ".toList.intercalate ((l :: ls).map quote) ++ [']'] =
        "allowed_content_languages".toList ++ " = ".toList ++
          '[' :: (", ".toList.intercalate ((l :: ls).map quote) ++ [']']) := by
    rw [append_assoc]
    rfl
  obtain ⟨more, hmore⟩ := exists_intercalate_quoted l ls
  rw [hline]
  refine readLine_bare (by decide) rfl ?_
  intro fuel hfuel
  have hitems := items_quoted hls (Nat.lt_of_lt_of_le hlength (Nat.le_of_succ_le hfuel))
  have hskip : skipBlanks (", ".toList.intercalate ((l :: ls).map quote) ++ [']']) =
      ", ".toList.intercalate ((l :: ls).map quote) ++ [']'] := by
    rw [hmore]
    rfl
  rw [← hskip] at hitems
  exact congrArg (Option.map fun r => (Value.arr r.1, r.2)) hitems

theorem readLine_header {text : List Char} {path : List String} (hstart : text.head? ≠ some '[')
    (hkeys : Toml.keys (text.length + 1) (skipBlanks text) = some (path, [']'])) :
    readLine ('[' :: text) = some (.header path) := by
  have hskip : skipBlanks ('[' :: text) = '[' :: text := rfl
  unfold readLine
  rw [hskip]
  dsimp only
  rw [if_neg (by decide), if_pos rfl]
  unfold headerLine
  rw [if_neg hstart, hkeys]
  rfl

theorem readLine_source {id : String} (hid : isBareKey id = true) :
    readLine ("[sources.".toList ++ id.toList ++ [']']) =
      some (.header ["sources", id]) := by
  have hfirst : key ("sources".toList ++ '.' :: (id.toList ++ [']'])) =
      some ("sources", '.' :: (id.toList ++ [']'])) := key_bare (by decide) rfl
  have hsecond : key (id.toList ++ [']']) = some (id, [']']) := key_bare hid rfl
  have hskip : skipBlanks (id.toList ++ [']']) = id.toList ++ [']'] := by
    obtain ⟨c, tail, htext, hc, -⟩ := exists_cons_of_bareKey hid
    obtain ⟨-, -, hblank, htab, -⟩ := plain_of_bare hc
    unfold skipBlanks
    rw [htext, cons_append, dropWhile_cons_of_neg (by simp [hblank, htab])]
  have hline : "[sources.".toList ++ id.toList ++ [']'] =
      '[' :: ("sources".toList ++ '.' :: (id.toList ++ [']'])) := by
    rw [append_assoc]
    rfl
  have hmore : Toml.keys (("sources".toList ++ '.' :: (id.toList ++ [']'])).length)
      (skipBlanks (id.toList ++ [']'])) = some ([id], [']']) := by
    rw [hskip]
    exact keys_one hsecond rfl (by decide)
  rw [hline]
  exact readLine_header nofun (keys_dot hfirst hmore)

theorem readLine_traceability :
    readLine "[traceability]".toList = some (.header ["traceability"]) := by
  rfl

theorem readLine_resolve : readLine "[resolve]".toList = some (.header ["resolve"]) := by
  rfl

theorem readLine_namespace :
    readLine "[resolve.namespace]".toList = some (.header ["resolve", "namespace"]) := by
  rfl

theorem readLine_validation :
    readLine "[validation]".toList = some (.header ["validation"]) := by
  rfl

end WorkspaceConfig
end StudioWeb
