import Mathlib.Data.List.Basic
import Mathlib.Data.List.Induction

/-!
# TOML texts of one-line statements

The part of TOML 1.0 that a configuration file is usually written in: bare, quoted and dotted
keys, tables, one-line strings, booleans and one-line arrays of these.  A text is read line by
line; a header opens a section, whose pairs make a table; and the tables are put together by
their headers.  Multi-line strings, numbers, dates, inline tables and arrays of tables are
outside this part, and a text with one of them reads as `none`, like a text that is no TOML.
-/

namespace StudioWeb
namespace Toml

open List Option

inductive Value where
  | str (s : String)
  | bool (b : Bool)
  | arr (items : List Value)
  | table (entries : List (String × Value))

abbrev Table := List (String × Value)

def isBareChar (c : Char) : Bool := c.isAlphanum || c = '_' || c = '-'

/-- A character that no string holds as it is. -/
def isControl (c : Char) : Bool := c.toNat < 32 && c ≠ '\t' || c.toNat = 127

def hexValue (c : Char) : Option Nat :=
  if c.isDigit then
    some (c.toNat - 48)
  else if 'a' ≤ c ∧ c ≤ 'f' then
    some (c.toNat - 87)
  else if 'A' ≤ c ∧ c ≤ 'F' then
    some (c.toNat - 55)
  else
    none

/-- The scalar value that four hexadecimal digits name. -/
def unicode (a b c d : Char) : Option Char := do
  let a ← hexValue a
  let b ← hexValue b
  let c ← hexValue c
  let d ← hexValue d
  let n := ((a * 16 + b) * 16 + c) * 16 + d
  if n.isValidChar then some (Char.ofNat n) else none

def escape : Char → Option Char
  | 'b' => some '\x08'
  | 't' => some '\t'
  | 'n' => some '\n'
  | 'f' => some '\x0c'
  | 'r' => some '\r'
  | '"' => some '"'
  | '\\' => some '\\'
  | _ => none

/-- A basic string after its opening quote: what it says, and the text after it. -/
def basicString : List Char → Option (List Char × List Char)
  | [] => none
  | '"' :: rest => some ([], rest)
  | '\\' :: 'u' :: a :: b :: c :: d :: rest =>
    (unicode a b c d).bind fun said => (basicString rest).map fun r => (said :: r.1, r.2)
  | '\\' :: e :: rest =>
    (escape e).bind fun said => (basicString rest).map fun r => (said :: r.1, r.2)
  | c :: rest =>
    if isControl c then none else (basicString rest).map fun r => (c :: r.1, r.2)

def literalString (text : List Char) : Option (List Char × List Char) :=
  match text.dropWhile fun c => c ≠ '\'' with
  | [] => none
  | _ :: rest =>
    let said := text.takeWhile fun c => c ≠ '\''
    if said.any isControl then none else some (said, rest)

def skipBlanks (text : List Char) : List Char := text.dropWhile fun c => c = ' ' || c = '\t'

def key : List Char → Option (String × List Char)
  | '"' :: rest => (basicString rest).map fun r => (String.ofList r.1, r.2)
  | '\'' :: rest => (literalString rest).map fun r => (String.ofList r.1, r.2)
  | text =>
    let word := text.takeWhile isBareChar
    if word = [] then none else some (String.ofList word, text.dropWhile isBareChar)

def keys : Nat → List Char → Option (List String × List Char)
  | 0, _ => none
  | fuel + 1, text =>
    (key text).bind fun k =>
      match skipBlanks k.2 with
      | '.' :: rest => (keys fuel (skipBlanks rest)).map fun r => (k.1 :: r.1, r.2)
      | rest => some ([k.1], rest)

def word : List Char → List Char → Option (List Char)
  | [], text => some text
  | _ :: _, [] => none
  | w :: expected, c :: text => if w = c then word expected text else none

mutual

/-- A value at the front of a text; a multi-line string is outside the part. -/
def value : Nat → List Char → Option (Value × List Char)
  | 0, _ => none
  | fuel + 1, text =>
    match text with
    | '"' :: '"' :: '"' :: _ => none
    | '"' :: rest => (basicString rest).map fun r => (.str (String.ofList r.1), r.2)
    | '\'' :: '\'' :: '\'' :: _ => none
    | '\'' :: rest => (literalString rest).map fun r => (.str (String.ofList r.1), r.2)
    | '[' :: rest => (items fuel (skipBlanks rest)).map fun r => (.arr r.1, r.2)
    | 't' :: rest => (word "rue".toList rest).map fun r => (.bool true, r)
    | 'f' :: rest => (word "alse".toList rest).map fun r => (.bool false, r)
    | _ => none

/-- The items of an array, after its bracket. -/
def items : Nat → List Char → Option (List Value × List Char)
  | 0, _ => none
  | fuel + 1, text =>
    match text with
    | ']' :: rest => some ([], rest)
    | text =>
      (value fuel text).bind fun v =>
        match skipBlanks v.2 with
        | ']' :: rest => some ([v.1], rest)
        | ',' :: rest => (items fuel (skipBlanks rest)).map fun r => (v.1 :: r.1, r.2)
        | _ => none

end

abbrev Pair := List String × Value

inductive Line where
  | blank
  | header (path : List String)
  | pair (p : Pair)

/-- What may stand after a statement. -/
def endsLine (text : List Char) : Bool :=
  match skipBlanks text with
  | [] => true
  | c :: _ => c = '#'

/-- A header, after its bracket; an array of tables is outside the part. -/
def headerLine (text : List Char) : Option Line :=
  if text.head? = some '[' then
    none
  else
    (keys (text.length + 1) (skipBlanks text)).bind fun k =>
      match skipBlanks k.2 with
      | ']' :: rest => if endsLine rest then some (.header k.1) else none
      | _ => none

def pairLine (text : List Char) : Option Line :=
  (keys (text.length + 1) text).bind fun k =>
    match skipBlanks k.2 with
    | '=' :: rest =>
      (value (rest.length + 1) (skipBlanks rest)).bind fun v =>
        if endsLine v.2 then some (.pair (k.1, v.1)) else none
    | _ => none

def readLine (text : List Char) : Option Line :=
  match skipBlanks text with
  | [] => some .blank
  | c :: rest =>
    if c = '#' then some .blank
    else if c = '[' then headerLine rest
    else pairLine (c :: rest)

def lines : List Char → List (List Char)
  | [] => [[]]
  | '\n' :: rest => [] :: lines rest
  | '\r' :: '\n' :: rest => [] :: lines rest
  | c :: rest =>
    match lines rest with
    | [] => [[c]]
    | l :: more => (c :: l) :: more

/-- A pair of a section; the tables of its dotted key belong to the section. -/
def addPair : List String → Value → Table → Option Table
  | [], _, _ => none
  | [k], v, t => if k ∈ t.map Prod.fst then none else some (t ++ [(k, v)])
  | k :: ks, v, t =>
    match t.lookup k with
    | none => (addPair ks v []).map fun sub => t ++ [(k, .table sub)]
    | some (.table sub) =>
      (addPair ks v sub).map fun sub =>
        t.map fun e => if e.1 = k then (k, .table sub) else e
    | some _ => none

def pairsTable (pairs : List Pair) : Option Table := pairs.foldlM (fun t p => addPair p.1 p.2 t) []

/-- Put a section's table where its header says. -/
def addTable : List String → Table → Table → Option Table
  | [], _, _ => none
  | [k], sub, t =>
    match t.lookup k with
    | none => some (t ++ [(k, .table sub)])
    | some (.table old) =>
      if sub.any fun e => e.1 ∈ old.map Prod.fst then
        none
      else
        some (t.map fun e => if e.1 = k then (k, .table (old ++ sub)) else e)
    | some _ => none
  | k :: ks, sub, t =>
    match t.lookup k with
    | none => (addTable ks sub []).map fun inner => t ++ [(k, .table inner)]
    | some (.table old) =>
      (addTable ks sub old).map fun inner =>
        t.map fun e => if e.1 = k then (k, .table inner) else e
    | some _ => none

/-- The tables that the dotted keys of a section make. -/
def dottedTables (header : List String) (pairs : List Pair) : List (List String) :=
  pairs.flatMap fun p => (p.1.dropLast.inits.drop 1).map fun path => header ++ path

abbrev Section := List String × List Pair

def sections : List Line → List Pair × List Section
  | [] => ([], [])
  | .blank :: rest => sections rest
  | .pair p :: rest => (p :: (sections rest).1, (sections rest).2)
  | .header path :: rest => ([], (path, (sections rest).1) :: (sections rest).2)

/-- The tables that no header may name again, and what has been read. -/
structure Reading where
  closed : List (List String)
  root : Table

/-- One more section; a header names no table twice, and none that a dotted key made. -/
def addSection (r : Reading) (s : Section) : Option Reading :=
  if s.1 ∈ r.closed then
    none
  else
    (pairsTable s.2).bind fun sub =>
      (addTable s.1 sub r.root).map fun root =>
        ⟨s.1 :: (dottedTables s.1 s.2 ++ r.closed), root⟩

/-- The table that a list of lines makes. -/
def document (ls : List Line) : Option Table :=
  let s := sections ls
  (pairsTable s.1).bind fun root =>
    (s.2.foldlM addSection ⟨dottedTables [] s.1, root⟩).map Reading.root

/-- The table that a text is. -/
def parse (text : List Char) : Option Table := ((lines text).mapM readLine).bind document

section Significant

/-- The lines with something on them. -/
def significant (ls : List (List Char)) : List (List Char) := ls.filter fun l => l ≠ []

theorem sections_cons (line : Line) :
    ∃ step : List Pair × List Section → List Pair × List Section,
      ∀ rest, sections (line :: rest) = step (sections rest) := by
  cases line with
  | blank => exact ⟨id, fun _ => rfl⟩
  | header path => exact ⟨fun s => ([], (path, s.1) :: s.2), fun _ => rfl⟩
  | pair p => exact ⟨fun s => (p :: s.1, s.2), fun _ => rfl⟩

theorem sections_significant (ls : List (List Char)) :
    ((significant ls).mapM readLine).map sections = (ls.mapM readLine).map sections := by
  induction ls with
  | nil => rfl
  | cons l ls ih =>
    by_cases hl : l = []
    · subst hl
      have hblank : readLine [] = some .blank := rfl
      have hdrop : significant ([] :: ls) = significant ls := rfl
      rw [hdrop, ih, mapM_cons, hblank]
      cases ls.mapM readLine <;> rfl
    · have hkeep : significant (l :: ls) = l :: significant ls := by
        unfold significant
        rw [filter_cons_of_pos (by simpa using hl)]
      rw [hkeep, mapM_cons, mapM_cons]
      cases readLine l with
      | none => rfl
      | some line =>
        obtain ⟨step, hstep⟩ := sections_cons line
        have hmore := congrArg (Option.map step) ih
        cases hfewer : (significant ls).mapM readLine <;>
          cases hall : ls.mapM readLine <;>
            simp_all

variable {text : List Char}

/-- Two texts with the same lines, empty ones apart, are the same table. -/
theorem parse_of_significant {ls : List (List Char)} {read : List Line}
    (hlines : significant (lines text) = significant ls) (hread : ls.mapM readLine = some read) :
    parse text = document read := by
  let tables := fun s : List Pair × List Section =>
    (pairsTable s.1).bind fun root =>
      (s.2.foldlM addSection ⟨dottedTables [] s.1, root⟩).map Reading.root
  have hdocument : ∀ ls, document ls = tables (sections ls) := fun _ => rfl
  have hsame : ((lines text).mapM readLine).map sections = some (sections read) := by
    rw [← sections_significant, hlines, sections_significant, hread]
    rfl
  unfold parse
  cases hall : (lines text).mapM readLine with
  | none =>
    rw [hall] at hsame
    cases hsame
  | some =>
    rw [hall] at hsame
    rw [bind_some, hdocument, hdocument, some.inj hsame]

theorem lines_cons {c : Char} (text : List Char) (hbreak : c ≠ '\n') (hreturn : c ≠ '\r') :
    lines (c :: text) = (c :: (lines text).headD []) :: (lines text).tail := by
  rw [lines]
  · cases lines text <;> rfl
  · exact hbreak
  · exact fun _ heq _ => hreturn heq

theorem lines_break {l : List Char} (rest : List Char) (hl : ∀ c ∈ l, c ≠ '\n' ∧ c ≠ '\r') :
    lines (l ++ '\n' :: rest) = l :: lines rest := by
  induction l with
  | nil => rfl
  | cons c _ ih =>
    have hmore := ih fun d hd => hl d (mem_cons_of_mem c hd)
    obtain ⟨hbreak, hreturn⟩ := hl c mem_cons_self
    rw [cons_append, lines_cons _ hbreak hreturn, hmore]
    rfl

theorem lines_line {l : List Char} (hl : ∀ c ∈ l, c ≠ '\n' ∧ c ≠ '\r') : lines l = [l] := by
  induction l with
  | nil => rfl
  | cons c _ ih =>
    have hmore := ih fun d hd => hl d (mem_cons_of_mem c hd)
    obtain ⟨hbreak, hreturn⟩ := hl c mem_cons_self
    rw [lines_cons _ hbreak hreturn, hmore]
    rfl

theorem lines_intercalate {ls : List (List Char)} (hne : ls ≠ [])
    (hls : ∀ l ∈ ls, ∀ c ∈ l, c ≠ '\n' ∧ c ≠ '\r') : lines (['\n'].intercalate ls) = ls := by
  induction ls with
  | nil => exact absurd rfl hne
  | cons l ls ih =>
    have hl := hls l mem_cons_self
    cases ls with
    | nil =>
      rw [intercalate_singleton]
      exact lines_line hl
    | cons m ls =>
      have hmore := ih (cons_ne_nil m ls) fun n hn => hls n (mem_cons_of_mem l hn)
      rw [intercalate_cons_cons, append_assoc]
      change lines (l ++ '\n' :: (['\n'].intercalate (m :: ls))) = _
      rw [lines_break _ hl, hmore]

theorem significant_break (htext : ∀ c ∈ text, c ≠ '\r') :
    significant (lines (text ++ ['\n'])) = significant (lines text) ∧
      (lines (text ++ ['\n'])).headD [] = (lines text).headD [] ∧
      significant (lines (text ++ ['\n'])).tail = significant (lines text).tail := by
  induction text with
  | nil => exact ⟨rfl, rfl, rfl⟩
  | cons c _ ih =>
    obtain ⟨hall, hhead, htail⟩ := ih fun d hd => htext d (mem_cons_of_mem c hd)
    have hreturn := htext c mem_cons_self
    by_cases hbreak : c = '\n'
    · subst hbreak
      exact ⟨hall, rfl, hall⟩
    · rw [cons_append, lines_cons _ hbreak hreturn, lines_cons _ hbreak hreturn, hhead]
      refine ⟨?_, rfl, htail⟩
      unfold significant at htail ⊢
      rw [filter_cons_of_pos (by simp), filter_cons_of_pos (by simp), htail]

theorem significant_breaks (breaks : List Char) (htext : ∀ c ∈ text, c ≠ '\r')
    (hbreaks : ∀ c ∈ breaks, c = '\n') :
    significant (lines (text ++ breaks)) = significant (lines text) := by
  induction breaks using List.reverseRecOn with
  | nil => rw [append_nil]
  | append_singleton breaks c ih =>
    have hmore := ih fun d hd => hbreaks d (mem_append_left [c] hd)
    have hc := hbreaks c (mem_append_right breaks mem_cons_self)
    subst hc
    rw [← append_assoc, (significant_break ?_).1, hmore]
    intro d hd
    rcases mem_append.mp hd with hfront | hback
    · exact htext d hfront
    · rw [hbreaks d (mem_append_left ['\n'] hback)]
      decide

end Significant

section Plain

/-- The pairs of a table whose keys are not dotted. -/
def plain (t : Table) : List Pair := t.map fun e => ([e.1], e.2)

theorem dottedTables_plain (header : List String) (t : Table) :
    dottedTables header (plain t) = [] := by
  unfold dottedTables plain
  rw [flatMap_map]
  exact flatMap_eq_nil_iff.mpr fun _ _ => rfl

theorem foldlM_addPair {t more : Table} (h : ((t ++ more).map Prod.fst).Nodup) :
    (plain more).foldlM (fun t p => addPair p.1 p.2 t) t = some (t ++ more) := by
  induction more generalizing t with
  | nil =>
    rw [append_nil]
    rfl
  | cons e more ih =>
    have hnew : e.1 ∉ t.map Prod.fst := by
      rw [List.map_append, map_cons] at h
      obtain ⟨-, -, hapart⟩ := nodup_append.mp h
      exact fun hin => hapart e.1 hin e.1 mem_cons_self rfl
    have happend : t ++ e :: more = t ++ [e] ++ more := by
      rw [append_assoc]
      rfl
    rw [happend] at h ⊢
    have hadd : addPair [e.1] e.2 t = some (t ++ [e]) := if_neg hnew
    change ((addPair [e.1] e.2 t).bind fun t =>
      (plain more).foldlM (fun t p => addPair p.1 p.2 t) t) = _
    rw [hadd, bind_some]
    exact ih h

theorem pairsTable_plain {t : Table} (h : (t.map Prod.fst).Nodup) : pairsTable (plain t) = some t :=
  @foldlM_addPair [] t h

theorem sections_pairs (ps : List Pair) (rest : List Line) :
    sections (ps.map .pair ++ rest) = (ps ++ (sections rest).1, (sections rest).2) := by
  induction ps with
  | nil => rfl
  | cons p ps ih =>
    change (p :: (sections (ps.map .pair ++ rest)).1, (sections (ps.map .pair ++ rest)).2) = _
    rw [ih]
    rfl

/-- Lines that are some sections, whatever sections come after them. -/
def Sections (ls : List Line) (ss : List Section) : Prop :=
  ∀ rest, (sections rest).1 = [] → sections (ls ++ rest) = ([], ss ++ (sections rest).2)

theorem Sections.nil : Sections [] [] :=
  fun _ hrest => Prod.ext hrest rfl

theorem Sections.blank : Sections [.blank] [] :=
  fun _ hrest => Prod.ext hrest rfl

theorem Sections.append {ls ms : List Line} {ss ts : List Section} (hfirst : Sections ls ss)
    (hsecond : Sections ms ts) : Sections (ls ++ ms) (ss ++ ts) := by
  intro rest hrest
  have hback := hsecond rest hrest
  rw [append_assoc, hfirst _ (by rw [hback]), hback, append_assoc]

theorem Sections.one (path : List String) (ps : List Pair) :
    Sections (.header path :: ps.map .pair) [(path, ps)] := by
  intro rest hrest
  change ([], (path, (sections (ps.map .pair ++ rest)).1) ::
    (sections (ps.map .pair ++ rest)).2) = _
  rw [sections_pairs, hrest, append_nil]
  rfl

/-- Pairs and the sections after them. -/
theorem sections_written {ls : List Line} {ss : List Section} (ps : List Pair)
    (h : Sections ls ss) : sections (ps.map .pair ++ ls) = (ps, ss) := by
  have hall := h [] rfl
  rw [append_nil] at hall
  rw [sections_pairs, hall, append_nil]
  exact congrArg (Prod.mk ps) (append_nil ss)

theorem foldlM_addSection_plain {r : Reading} {ss : List (List String × Table)} {root : Table}
    (hkeys : ∀ s ∈ ss, (s.2.map Prod.fst).Nodup) (honce : (ss.map Prod.fst).Nodup)
    (hnew : ∀ s ∈ ss, s.1 ∉ r.closed)
    (h : ss.foldlM (fun t s => addTable s.1 s.2 t) r.root = some root) :
    ((ss.map fun s => (s.1, plain s.2)).foldlM addSection r).map Reading.root = some root := by
  induction ss generalizing r with
  | nil => exact h
  | cons s ss ih =>
    obtain ⟨t, hadd, hmore⟩ := bind_eq_some_iff.mp h
    rw [map_cons, nodup_cons] at honce
    have hsection : addSection r (s.1, plain s.2) = some ⟨s.1 :: r.closed, t⟩ := by
      have hroot : addTable s.1 s.2 r.root = some t := hadd
      unfold addSection
      rw [if_neg (hnew s mem_cons_self), pairsTable_plain (hkeys s mem_cons_self),
        bind_some, hroot, dottedTables_plain]
      rfl
    have hfresh : ∀ u ∈ ss, u.1 ∉ s.1 :: r.closed := by
      intro u hu hin
      rcases mem_cons.mp hin with heq | hclosed
      · exact honce.1 (List.mem_map.mpr ⟨u, hu, heq⟩)
      · exact hnew u (mem_cons_of_mem s hu) hclosed
    change (((addSection r (s.1, plain s.2)).bind fun r =>
      (ss.map fun s => (s.1, plain s.2)).foldlM addSection r).map Reading.root) = _
    rw [hsection, bind_some]
    exact @ih ⟨s.1 :: r.closed, t⟩ (fun u hu => hkeys u (mem_cons_of_mem s hu)) honce.2 hfresh hmore

theorem document_plain {ls : List Line} {pairs root : Table} {ss : List (List String × Table)}
    (hls : Sections ls (ss.map fun s => (s.1, plain s.2))) (hpairs : (pairs.map Prod.fst).Nodup)
    (hkeys : ∀ s ∈ ss, (s.2.map Prod.fst).Nodup) (honce : (ss.map Prod.fst).Nodup)
    (h : ss.foldlM (fun t s => addTable s.1 s.2 t) pairs = some root) :
    document ((plain pairs).map .pair ++ ls) = some root := by
  unfold document
  rw [sections_written (plain pairs) hls]
  dsimp only
  rw [pairsTable_plain hpairs, bind_some, dottedTables_plain]
  exact foldlM_addSection_plain hkeys honce (fun _ _ => not_mem_nil) h

variable {k : String}

theorem addTable_new {sub t : Table} (h : t.lookup k = none) :
    addTable [k] sub t = some (t ++ [(k, .table sub)]) := by
  rw [addTable, h]

theorem lookup_last {front : Table} {v : Value} (hfront : front.lookup k = none) :
    (front ++ [(k, v)]).lookup k = some v := by
  rw [lookup_append, hfront, lookup_cons_self]
  rfl

theorem addTable_under {k l : String} {ks : List String} {sub old inner front : Table}
    (hfront : front.lookup k = none) (h : addTable (l :: ks) sub old = some inner) :
    addTable (k :: l :: ks) sub (front ++ [(k, .table old)]) =
      some (front ++ [(k, .table inner)]) := by
  have hkeep : ∀ e ∈ front, (if e.1 = k then (k, Value.table inner) else e) = e := by
    intro e he
    have hne := lookup_eq_none_iff.mp hfront e he
    exact if_neg fun heq => bne_iff_ne.mp hne heq.symm
  rw [addTable, lookup_last hfront]
  · dsimp only
    rw [h, Option.map_some, List.map_append, List.map_congr_left hkeep, List.map_id']
    simp
  · exact cons_ne_nil l ks

theorem foldlM_addTable_under {front old : Table} {ts : List (String × Table)}
    (hfront : front.lookup k = none) (honce : ((old.map Prod.fst) ++ ts.map Prod.fst).Nodup) :
    (ts.map fun e => ([k, e.1], e.2)).foldlM (fun t s => addTable s.1 s.2 t)
        (front ++ [(k, .table old)]) =
      some (front ++ [(k, .table (old ++ ts.map fun e => (e.1, .table e.2)))]) := by
  induction ts generalizing old with
  | nil =>
    rw [map_nil, map_nil, append_nil]
    rfl
  | cons e _ ih =>
    have hnew : old.lookup e.1 = none := by
      refine lookup_eq_none_iff.mpr ?_
      intro p hp
      obtain ⟨-, -, hapart⟩ := nodup_append.mp honce
      exact bne_iff_ne.mpr (hapart p.1 (List.mem_map_of_mem hp) e.1 mem_cons_self).symm
    have hfirst := addTable_under hfront (@addTable_new e.1 e.2 old hnew)
    have hmore := @ih (old ++ [(e.1, .table e.2)]) (by simpa using honce)
    rw [map_cons, foldlM_cons]
    change ((addTable [k, e.1] e.2 (front ++ [(k, .table old)])).bind _) = _
    rw [hfirst, bind_some, hmore, append_assoc]
    rfl

theorem addTable_first {k l : String} {sub t : Table} (h : t.lookup k = none) :
    addTable [k, l] sub t = some (t ++ [(k, .table [(l, .table sub)])]) := by
  rw [addTable, h]
  · rfl
  · exact cons_ne_nil l []

end Plain

example :
    (parse "a = \"x\"\n[s.\"b.c\"]  # a table\non = true\n".toList).map (fun t => t.map Prod.fst) =
      some ["a", "s"] := by
  decide +kernel

end Toml
end StudioWeb
