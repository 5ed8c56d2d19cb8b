import StudioWeb.Documents.WorkLinks
import StudioWeb.Product.SourcesLock

/-!
# Where each requirement is named

`trace` of `documents/spec_model/trace.rs`: the first line of each document, and of each traced
file, that names a requirement.  An identifier that is a token is looked up in one pass over
the lines of a text; any other one is searched for, line by line in a document, and in the
whole of a file.  Which files are traced, and which of them are tests, is a parameter.
-/

namespace StudioWeb
namespace Documents
namespace Tracing

open WholeTokens WorkLinks List Option
open Product (linesOf withoutReturn)

structure Requirement where
  id : String
  path : String
  line : Nat
  line_pos : 1 ≤ line

structure SourceDoc where
  path : String
  text : String

/-- One place an identifier is named. -/
structure Cited where
  path : String
  line : Nat
deriving DecidableEq

structure Trace where
  requirement : Requirement
  documents : List Cited
  code : List Cited
  tests : List Cited

section Searches

/-- The most places of one kind kept per requirement. -/
def PER_KIND : Nat := 20

/-- The loop of `first_line_naming`; the outer option is `none` where it does not end. -/
def firstLineNamingFrom (lower : List Char) : Nat → List (List Char) → Option (Option Nat)
  | _, [] => some none
  | line, l :: lines =>
    if lower <:+: lowercase l then
      match namedAt isPart (lowercase lower) (lowercase l) with
      | .at _ => some (some line)
      | .missing => firstLineNamingFrom lower (line + 1) lines
      | .hangs => none
    else
      firstLineNamingFrom lower (line + 1) lines

def firstLineNaming (text id : List Char) : Option (Option Nat) :=
  firstLineNamingFrom (lowercase id) 1 (linesOf text)

def firstLineNamingLower (text lowerText lowerId : List Char) : Option (Option Nat) :=
  if lowerId = [] ∨ '\r' ∈ lowerId then
    firstLineNaming text lowerId
  else if '\n' ∈ lowerId then
    some none
  else
    match namedAt isPart lowerId lowerText with
    | .at start => some (some ((lowerText.take start).count '\n' + 1))
    | .missing => some none
    | .hangs => none

def lineTokens (text : List Char) : List (Nat × List Char) :=
  ((linesOf text).zipIdx 1).flatMap fun l =>
    (l.1.splitOnP fun c => !isPart c).map fun token => (l.2, token)

/-- A token that no wanted identifier is as long as. -/
def isPassed (wanted : List (List Char)) (token : List Char) : Bool :=
  token = [] || token.length < (wanted.map List.length).min?.getD 0 ||
    (wanted.map List.length).max?.getD 0 < token.length

def addLine (keep : Nat) (lines : List Nat) (line : Nat) : List Nat :=
  if lines.length < keep ∧ lines.getLast? ≠ some line then lines ++ [line] else lines

/-- What `lines_naming` keeps of one wanted identifier. -/
def linesNaming (text : List Char) (wanted : List (List Char)) (keep : Nat) (key : List Char) :
    List Nat :=
  (lineTokens text).foldl (fun lines t =>
      if isPassed wanted t.2 || !wanted.contains (lowercase t.2) || lowercase t.2 ≠ key then
        lines
      else
        addLine keep lines t.1)
    []

def otherLines (text : List Char) (line : Nat) : List (List Char) :=
  (((linesOf text).zipIdx 1).filter fun l => l.2 ≠ line).map Prod.fst

def documentLine (wanted : List (List Char)) (r : Requirement) (d : SourceDoc) :
    Option (Option Nat) :=
  let key := lowercase r.id.toList
  if wanted.contains key then
    some ((linesNaming d.text.toList wanted 2 key).find? fun l => d.path ≠ r.path || l ≠ r.line)
  else if d.path = r.path then
    -- Its own definition is not a reference to it: look past it.
    (firstLineNaming (['\n'].intercalate (otherLines d.text.toList r.line)) r.id.toList).map
      fun found => found.map fun line => if r.line ≤ line then line + 1 else line
  else
    firstLineNaming d.text.toList r.id.toList

def fileLine (wanted : List (List Char)) (r : Requirement) (file : String × String) :
    Option (Option Nat) :=
  let key := lowercase r.id.toList
  if wanted.contains key then
    some (linesNaming file.2.toList wanted 1 key).head?
  else
    firstLineNamingLower file.2.toList (lowercase file.2.toList) key

/-- The places of a list of texts, when every search ends. -/
def placesIn {δ : Type} (path : δ → String) (line : δ → Option (Option Nat)) :
    List δ → Option (List Cited)
  | [] => some []
  | d :: rest =>
    match line d, placesIn path line rest with
    | some found, some places => some ((found.map fun l => ⟨path d, l⟩).toList ++ places)
    | _, _ => none

variable (isTestPath : String → Bool) (isTraced : String → String → Bool)

def traceOne (wanted : List (List Char)) (docs : List SourceDoc)
    (sources : List (String × String)) (r : Requirement) : Option Trace :=
  match placesIn SourceDoc.path (documentLine wanted r) docs,
    placesIn Prod.fst (fileLine wanted r) sources with
  | some documents, some files =>
    some ⟨r, documents.take PER_KIND, (files.filter fun c => !isTestPath c.path).take PER_KIND,
      (files.filter fun c => isTestPath c.path).take PER_KIND⟩
  | _, _ => none

/-- Every requirement with the places that name it; `none` where a search does not end. -/
def trace (requirements : List Requirement) (docs : List SourceDoc)
    (files : List (String × String)) : Option (List Trace) :=
  let wanted := (requirements.filter fun r => isToken r.id.toList).map fun r =>
    lowercase r.id.toList
  requirements.mapM (traceOne isTestPath wanted docs (files.filter fun f => isTraced f.1 f.2))

end Searches

/-- A text is one line, or a line before a line feed and what is behind it. -/
theorem lines_induction {P : List Char → Prop} (hlast : ∀ line, '\n' ∉ line → P line)
    (hmore : ∀ line rest, '\n' ∉ line → P rest → P (line ++ '\n' :: rest)) (text : List Char) :
    P text := by
  by_cases hfeed : '\n' ∈ text
  · obtain ⟨line, rest, rfl, hline⟩ := eq_append_cons_of_mem hfeed
    exact hmore line rest hline (lines_induction hlast hmore rest)
  · exact hlast text hfeed
termination_by text.length
decreasing_by simp [*]; omega

theorem linesOf_last {line : List Char} (h : '\n' ∉ line) :
    linesOf line = if line = [] then [] else [line] := by
  unfold linesOf
  rw [splitOn_eq_singleton h]
  cases line <;> simp

theorem linesOf_append {line : List Char} (h : '\n' ∉ line) (rest : List Char) :
    linesOf (line ++ '\n' :: rest) = withoutReturn line :: linesOf rest := by
  have hne : rest.splitOn '\n' ≠ [] := splitOn_ne_nil _ _
  unfold linesOf
  rw [splitOn_append_cons_self, splitOn_eq_singleton h, singleton_append]
  simp only [dropLast_cons_of_ne_nil hne, getLast?_cons_of_ne_nil hne, map_cons,
    cons_append]

theorem not_feed_mem_linesOf {text l : List Char} (h : l ∈ linesOf text) : '\n' ∉ l := by
  induction text using lines_induction with
  | hlast line hline =>
    rw [linesOf_last hline] at h
    split at h
    · cases h
    · rw [mem_singleton.mp h]
      exact hline
  | hmore line rest hline ih =>
    rw [linesOf_append hline] at h
    rcases mem_cons.mp h with rfl | h
    · unfold withoutReturn
      split
      · exact fun hmem => hline (dropLast_subset _ hmem)
      · exact hline
    · exact ih h

section FirstLine

variable {P Q : Nat → List Char → Prop} {n k : Nat} {lines : List (List Char)}

open Classical in
/-- The first line that a property holds of, the lines counted from some number on. -/
noncomputable def firstLine (P : Nat → List Char → Prop) : Nat → List (List Char) → Option Nat
  | _, [] => none
  | n, l :: lines => if P n l then some n else firstLine P (n + 1) lines

theorem firstLine_congr (n : Nat) (h : ∀ k, n ≤ k → ∀ l ∈ lines, (P k l ↔ Q k l)) :
    firstLine P n lines = firstLine Q n lines := by
  induction lines generalizing n with
  | nil => rfl
  | cons l lines ih =>
    have hrest := ih (n + 1) fun k hk l hl =>
      h k (Nat.le_of_succ_le hk) l (mem_cons_of_mem _ hl)
    have hhere := h n (Nat.le_refl n) l mem_cons_self
    unfold firstLine
    by_cases hP : P n l
    · rw [if_pos hP, if_pos (hhere.mp hP)]
    · rw [if_neg hP, if_neg (mt hhere.mpr hP), hrest]

theorem firstLine_eq_none (h : ∀ k, ∀ l ∈ lines, ¬ P k l) : firstLine P n lines = none := by
  induction lines generalizing n with
  | nil => rfl
  | cons l lines ih =>
    unfold firstLine
    rw [if_neg (h n l mem_cons_self)]
    exact ih fun k l hl => h k l (mem_cons_of_mem _ hl)

theorem le_firstLine (h : firstLine P n lines = some k) : n ≤ k := by
  induction lines generalizing n with
  | nil => cases h
  | cons l lines ih =>
    unfold firstLine at h
    split at h
    · exact Nat.le_of_eq (some.inj h)
    · exact Nat.le_of_succ_le (ih h)

end FirstLine

section Naming

variable {id : String} {text : List Char} {lines : List (List Char)} {n : Nat}

/-- The line that the plain search finds. -/
noncomputable def firstNaming (id : String) : Nat → List (List Char) → Option Nat :=
  firstLine fun _ l => Stands isPart id l

/-- Where an identifier is empty, a line that is searched for it has to name it. -/
def Ends (id : String) (lines : List (List Char)) : Prop :=
  id = "" → ∀ l ∈ lines.head?, Stands isPart id l

theorem lowercase_lowercase (text : List Char) : lowercase (lowercase text) = lowercase text := by
  have hlower : ∀ c : Char, c.toLower.toLower = c.toLower := by
    intro c
    unfold Char.toLower
    split <;> grind [UInt32.le_iff_toNat_le]
  unfold lowercase
  rw [List.map_map]
  exact map_congr_left fun c _ => hlower c

theorem exists_named_iff {l : List Char} :
    (∃ start, namedAt isPart (lowercase id.toList) (lowercase l) = .at start) ↔
      Stands isPart id l :=
  exists_namedAt_iff.trans stands_iff

theorem not_stands_of_missing {l : List Char}
    (h : namedAt isPart (lowercase id.toList) (lowercase l) = .missing) :
    ¬ Stands isPart id l := by
  intro hstands
  obtain ⟨start, hstart⟩ := exists_named_iff.mpr hstands
  cases h.symm.trans hstart

theorem infix_of_stands {l : List Char} (h : Stands isPart id l) :
    lowercase id.toList <:+: lowercase l := by
  obtain ⟨before, found, after, htext, hfound, _⟩ := stands_iff.mpr h
  rw [List.map_id'] at hfound
  exact ⟨before, after, by rw [htext, hfound, append_assoc]⟩

theorem lowercase_ne_nil (hne : id ≠ "") : lowercase id.toList ≠ [] := by
  unfold lowercase
  rw [Ne, map_eq_nil_iff, String.toList_eq_nil_iff]
  exact hne

theorem not_stands_nil (hne : id ≠ "") : ¬ Stands isPart id [] :=
  fun h => lowercase_ne_nil hne (infix_nil.mp (infix_of_stands h))

theorem not_hangs {l : List Char} (hne : id ≠ "") :
    namedAt isPart (lowercase id.toList) (lowercase l) ≠ .hangs :=
  fun h => lowercase_ne_nil hne (namedAt_hangs_iff.mp h).1

theorem firstLineNamingFrom_eq (hends : Ends id lines) :
    firstLineNamingFrom (lowercase id.toList) n lines = some (firstNaming id n lines) := by
  induction lines generalizing n with
  | nil => rfl
  | cons l lines ih =>
    unfold firstLineNamingFrom firstNaming firstLine
    rw [lowercase_lowercase]
    by_cases hstands : Stands isPart id l
    · obtain ⟨start, hstart⟩ := exists_named_iff.mpr hstands
      rw [if_pos (infix_of_stands hstands), if_pos hstands, hstart]
    · have hne : id ≠ "" := fun h => hstands (hends h l rfl)
      have hrest : firstLineNamingFrom (lowercase id.toList) (n + 1) lines =
        some (firstNaming id (n + 1) lines) := ih fun h => absurd h hne
      rw [if_neg hstands, hrest]
      split
      · cases hsearch : namedAt isPart (lowercase id.toList) (lowercase l) with
        | «at» start => exact absurd (exists_named_iff.mp ⟨start, hsearch⟩) hstands
        | missing => rfl
        | hangs => exact absurd hsearch (not_hangs hne)
      · rfl

/-- Line by line, the first line that names the identifier is found. -/
theorem firstLineNaming_eq (hends : Ends id (linesOf text)) :
    firstLineNaming text id.toList = some (firstNaming id 1 (linesOf text)) :=
  firstLineNamingFrom_eq hends

theorem stands_withoutReturn (hreturn : '\r' ∉ lowercase id.toList) (hne : id ≠ "")
    (l : List Char) : Stands isPart id (withoutReturn l) ↔ Stands isPart id l := by
  unfold withoutReturn
  split
  · next hlast =>
    obtain ⟨front, rfl⟩ := getLast?_eq_some_iff.mp hlast
    have hpart : isPart '\r' = false := rfl
    have hnil := not_stands_nil hne
    rw [dropLast_concat]
    unfold Stands at hnil ⊢
    rw [used_append_separator_iff hpart (show Char.toLower '\r' ∉ _ from hreturn)]
    simp only [hnil, or_false]
  · rfl

theorem toLower_of_separator {c : Char} (h : isPart c.toLower = false) : c.toLower = c := by
  rw [isPart_toLower] at h
  unfold Char.toLower
  split
  · next hupper =>
    simp [isPart, Char.isAlphanum, Char.isAlpha, Char.isUpper] at h
    exact absurd hupper.2 (UInt32.not_le.mpr (h.1.1.1.1 hupper.1))
  · rfl

theorem count_lowercase_take (l : List Char) (h : '\n' ∉ l) (k : Nat) :
    ((lowercase l).take k).count '\n' = 0 := by
  refine count_eq_zero.mpr fun hmem => ?_
  obtain ⟨c, hc, hfeed⟩ := List.mem_map.mp (mem_of_mem_take hmem)
  have hsame : c.toLower = c := toLower_of_separator (by rw [hfeed]; rfl)
  exact h (hfeed.symm.trans hsame ▸ hc)

theorem stands_of_line {l : List Char} (hfeed : '\n' ∈ lowercase id.toList) (hl : '\n' ∉ l) :
    ¬ Stands isPart id l := by
  intro h
  have hmem := (infix_of_stands h).subset hfeed
  have hnone := count_lowercase_take l hl (lowercase l).length
  rw [take_length] at hnone
  exact count_eq_zero.mp hnone hmem

def lineOf (n : Nat) (text : List Char) : Search → Option (Option Nat)
  | .at start => some (some ((text.take start).count '\n' + n))
  | .missing => some none
  | .hangs => none

theorem lineOf_shift (n : Nat) {line rest : List Char} (hline : '\n' ∉ line) (found : Search) :
    lineOf n (lowercase (line ++ '\n' :: rest)) (found.shift (line.length + 1)) =
      lineOf (n + 1) (lowercase rest) found := by
  cases found with
  | «at» start =>
    have htake : (lowercase (line ++ '\n' :: rest)).take (line.length + 1 + start) =
        lowercase line ++ '\n' :: (lowercase rest).take start := by
      have hlength : line.length = (lowercase line).length := length_map _ |>.symm
      have htext : lowercase (line ++ '\n' :: rest) = lowercase line ++ '\n' :: lowercase rest :=
        map_append
      rw [htext, hlength, Nat.add_assoc, take_length_add_append, Nat.add_comm 1,
        take_succ_cons]
    have hnone := count_lowercase_take line hline (lowercase line).length
    rw [take_length] at hnone
    simp only [Search.shift, lineOf, htake, count_append, count_cons_self, hnone]
    congr 2
    omega
  | missing => rfl
  | hangs => rfl

/-- The search of the whole text finds the line that the search line by line does. -/
theorem lineOf_namedAt (hreturn : '\r' ∉ lowercase id.toList) (hfeed : '\n' ∉ lowercase id.toList)
    (hne : id ≠ "") (text : List Char) (n : Nat) :
    lineOf n (lowercase text) (namedAt isPart (lowercase id.toList) (lowercase text)) =
      some (firstNaming id n (linesOf text)) := by
  have hpattern := lowercase_ne_nil hne
  induction text using lines_induction generalizing n with
  | hlast line hline =>
    rw [linesOf_last hline]
    unfold firstNaming
    cases hfound : namedAt isPart (lowercase id.toList) (lowercase line) with
    | «at» start =>
      have hstands := exists_named_iff.mp ⟨start, hfound⟩
      have hsome : line ≠ [] := by
        rintro rfl
        exact not_stands_nil hne hstands
      rw [if_neg hsome, firstLine, if_pos hstands, lineOf, count_lowercase_take line hline,
        Nat.zero_add]
    | missing =>
      have hnot : ¬ Stands isPart id line := not_stands_of_missing hfound
      split
      · rfl
      · rw [firstLine, if_neg hnot]
        rfl
    | hangs => exact absurd hfound (not_hangs hne)
  | hmore line rest hline ih =>
    have hpart : isPart '\n' = false := rfl
    have hcut := namedAt_append_separator hpart hfeed hpattern (lowercase line) (lowercase rest)
    have htext : lowercase (line ++ '\n' :: rest) =
        lowercase line ++ '\n' :: lowercase rest := map_append
    rw [linesOf_append hline]
    unfold firstNaming firstLine
    rw [stands_withoutReturn hreturn hne, htext, hcut, ← htext]
    cases hfound : namedAt isPart (lowercase id.toList) (lowercase line) with
    | «at» start =>
      have hle := le_of_namedFrom [] (lowercase line) hfound
      have hnone := count_lowercase_take line hline start
      rw [length_nil, Nat.zero_add] at hle
      rw [if_pos (exists_named_iff.mp ⟨start, hfound⟩)]
      simp only [lineOf, htext, take_append_of_le_length hle, hnone, Nat.zero_add]
    | missing =>
      have hnot : ¬ Stands isPart id line := not_stands_of_missing hfound
      have hlength : (lowercase line).length = line.length := length_map _
      rw [if_neg hnot]
      simp only [hlength]
      rw [lineOf_shift n hline]
      exact ih (n + 1)
    | hangs => exact absurd hfound (not_hangs hne)

/-- The search of a whole file answers what the search line by line does. -/
theorem firstLineNamingLower_eq (text : List Char) (id : String) :
    firstLineNamingLower text (lowercase text) (lowercase id.toList) =
      firstLineNaming text id.toList := by
  unfold firstLineNamingLower
  split
  · unfold firstLineNaming
    rw [lowercase_lowercase]
  · next hplain =>
    rw [not_or] at hplain
    have hne : id ≠ "" := by
      rintro rfl
      exact hplain.1 rfl
    rw [firstLineNaming_eq fun h => absurd h hne]
    split
    · next hfeed =>
      refine congrArg some (firstLine_eq_none fun _ l hl => ?_).symm
      exact stands_of_line hfeed (not_feed_mem_linesOf hl)
    · next hfeed => exact lineOf_namedAt hplain.2 hfeed hne text 1

end Naming

section Index

variable {id : String} {wanted : List (List Char)} {keep n k : Nat} {lines : List (List Char)}

open Classical in
/-- The lines that name the identifier, counted from some number on. -/
noncomputable def namingLines (id : String) : Nat → List (List Char) → List Nat
  | _, [] => []
  | n, l :: lines =>
    if Stands isPart id l then n :: namingLines id (n + 1) lines else namingLines id (n + 1) lines

theorem le_of_mem_namingLines (h : k ∈ namingLines id n lines) : n ≤ k := by
  induction lines generalizing n with
  | nil => cases h
  | cons l lines ih =>
    unfold namingLines at h
    split at h
    · rcases mem_cons.mp h with rfl | h
      · exact Nat.le_refl _
      · exact Nat.le_of_succ_le (ih h)
    · exact Nat.le_of_succ_le (ih h)

theorem nodup_namingLines : (namingLines id n lines).Nodup := by
  induction lines generalizing n with
  | nil => exact nodup_nil
  | cons l lines ih =>
    unfold namingLines
    split
    · refine nodup_cons.mpr ⟨fun h => ?_, ih⟩
      exact absurd (le_of_mem_namingLines h) (Nat.not_succ_le_self n)
    · exact ih

theorem find?_namingLines (p : Nat → Bool) :
    (namingLines id n lines).find? p = firstLine (fun k l => p k = true ∧ Stands isPart id l) n lines := by
  induction lines generalizing n with
  | nil => rfl
  | cons l lines ih =>
    unfold namingLines firstLine
    by_cases hstands : Stands isPart id l
    · by_cases hp : p n = true
      · rw [if_pos hstands, if_pos ⟨hp, hstands⟩, find?_cons_of_pos hp]
      · rw [if_pos hstands, if_neg fun h => hp h.1, find?_cons_of_neg hp, ih]
    · rw [if_neg hstands, if_neg fun h => hstands h.2, ih]

/-- The first two lines are enough where one line at most is passed over. -/
theorem find?_take_two {xs : List Nat} {p : Nat → Bool} (hnodup : xs.Nodup)
    (hone : ∀ m, p m = false → m = k) : (xs.take 2).find? p = xs.find? p := by
  cases xs with
  | nil => rfl
  | cons a xs =>
    cases ha : p a with
    | true => simp [ha]
    | false =>
      cases xs with
      | nil => rfl
      | cons b xs =>
        have hb : p b = true := by
          by_contra hb
          have hsame := (hone a ha).trans (hone b (eq_false_of_ne_true hb)).symm
          exact (nodup_cons.mp hnodup).1 (hsame ▸ mem_cons_self)
        simp [ha, hb]

/-- A token of a line is the identifier exactly when the line names it. -/
theorem exists_token_iff (htoken : isToken (lowercase id.toList) = true) {l : List Char} :
    (∃ t ∈ l.splitOnP fun c => !isPart c, lowercase t = lowercase id.toList) ↔
      Stands isPart id l := by
  have hparts := List.all_eq_true.mp ((Bool.and_eq_true _ _).mp htoken).2
  constructor
  · rintro ⟨t, ht, hlower⟩
    obtain ⟨before, found, after, htext, hfound, hapart⟩ := used_of_mem_splitOnP ht
    rw [List.map_id] at hfound
    exact ⟨before, found, after, htext, hfound ▸ hlower, hapart⟩
  · rintro ⟨before, found, after, htext, hfound, hapart⟩
    refine ⟨found, mem_splitOnP_of_used ?_ ⟨before, found, after, htext, List.map_id _, hapart⟩,
      hfound⟩
    intro c hc
    rw [← isPart_toLower]
    exact hparts _ (hfound ▸ List.mem_map_of_mem hc)

theorem addLine_addLine (lines : List Nat) : addLine keep (addLine keep lines n) n = addLine keep lines n := by
  unfold addLine
  split
  · rw [if_neg fun h => h.2 getLast?_concat]
  · rfl

theorem not_isPassed {t : List Char} (hne : t ≠ []) (hwanted : lowercase t ∈ wanted) :
    isPassed wanted t = false := by
  have hlength : t.length ∈ wanted.map List.length :=
    List.mem_map.mpr ⟨lowercase t, hwanted, length_map _⟩
  have hmin : (wanted.map List.length).min?.getD 0 ≤ t.length := min?_getD_le_of_mem hlength
  have hmax : t.length ≤ (wanted.map List.length).max?.getD 0 := le_max?_getD_of_mem hlength
  simp [isPassed, hne, Nat.not_lt.mpr hmin, Nat.not_lt.mpr hmax]

/-- One round of the loop of `lines_naming` over the tokens of a line, for one identifier. -/
theorem foldl_tokens (htoken : isToken (lowercase id.toList) = true)
    (hwanted : lowercase id.toList ∈ wanted) (l : List Char) (n : Nat) (lines kept : List Nat)
    (h : (l.splitOnP fun c => !isPart c).foldl (fun lines t =>
        if isPassed wanted t || !wanted.contains (lowercase t) ||
            lowercase t ≠ lowercase id.toList then
          lines
        else
          addLine keep lines n) lines = kept) :
    (Stands isPart id l → kept = addLine keep lines n) ∧
      (¬ Stands isPart id l → kept = lines) := by
  have hround : ∀ (lines : List Nat) (t : List Char),
      (if isPassed wanted t || !wanted.contains (lowercase t) ||
          lowercase t ≠ lowercase id.toList then lines else addLine keep lines n) =
        if lowercase t = lowercase id.toList then addLine keep lines n else lines := by
    intro lines t
    by_cases hsame : lowercase t = lowercase id.toList
    · have hne : t ≠ [] := by
        rintro rfl
        rw [← hsame] at htoken
        cases htoken
      have hin : lowercase t ∈ wanted := hsame ▸ hwanted
      simp [hsame, not_isPassed hne hin, hwanted]
    · simp [hsame]
  have hfold : ∀ (ts : List (List Char)) (lines : List Nat), ts.foldl (fun lines t =>
        if lowercase t = lowercase id.toList then addLine keep lines n else lines) lines =
      if ∃ t ∈ ts, lowercase t = lowercase id.toList then addLine keep lines n else lines := by
    intro ts
    induction ts with
    | nil =>
      intro lines
      simp
    | cons t ts ih =>
      intro lines
      rw [foldl_cons, ih]
      by_cases hsame : lowercase t = lowercase id.toList
      · simp [hsame, addLine_addLine]
      · simp [hsame]
  simp only [hround, hfold] at h
  rw [← h, ← exists_token_iff htoken]
  exact ⟨fun hsome => if_pos hsome, fun hnone => if_neg hnone⟩

theorem addLine_take {before : List Nat} (hbefore : ∀ m ∈ before, m < n) :
    addLine keep (before.take keep) n = (before ++ [n]).take keep := by
  unfold addLine
  by_cases hlt : before.length < keep
  · have hlast : before.getLast? ≠ some n := fun h =>
      Nat.lt_irrefl n (hbefore n (mem_of_getLast? h))
    rw [take_of_length_le (Nat.le_of_lt hlt), if_pos ⟨hlt, hlast⟩,
      take_of_length_le (by rw [length_append]; exact hlt)]
  · have hle := Nat.not_lt.mp hlt
    rw [if_neg fun h => Nat.lt_irrefl keep (by rw [length_take_of_le hle] at h; exact h.1),
      take_append_of_le_length hle]

/-- A loop that keeps the lines that name the identifier keeps the first of them. -/
theorem foldl_lines {round : List Nat → List Char × Nat → List Nat}
    (hround : ∀ kept l, (Stands isPart id l.1 → round kept l = addLine keep kept l.2) ∧
      (¬ Stands isPart id l.1 → round kept l = kept))
    (before : List Nat) (hbefore : ∀ m ∈ before, m < n) :
    (lines.zipIdx n).foldl round (before.take keep) =
      (before ++ namingLines id n lines).take keep := by
  induction lines generalizing n before with
  | nil => simp [namingLines]
  | cons l lines ih =>
    rw [zipIdx_cons, foldl_cons]
    unfold namingLines
    by_cases hstands : Stands isPart id l
    · have hnext : ∀ m ∈ before ++ [n], m < n + 1 := by
        intro m hm
        rcases mem_append.mp hm with hm | hm
        · exact Nat.lt_succ_of_lt (hbefore m hm)
        · rw [mem_singleton.mp hm]
          exact Nat.lt_succ_self n
      rw [(hround _ (l, n)).1 hstands, addLine_take hbefore, if_pos hstands, ih _ hnext,
        append_assoc, singleton_append]
    · rw [(hround _ (l, n)).2 hstands, if_neg hstands]
      exact ih before fun m hm => Nat.lt_succ_of_lt (hbefore m hm)

/-- The lines kept of an identifier are the first ones that name it. -/
theorem linesNaming_eq (htoken : isToken (lowercase id.toList) = true)
    (hwanted : lowercase id.toList ∈ wanted) (text : List Char) :
    linesNaming text wanted keep (lowercase id.toList) =
      (namingLines id 1 (linesOf text)).take keep := by
  unfold linesNaming lineTokens
  rw [foldl_flatMap]
  simp only [foldl_map]
  have hlines := @foldl_lines id keep 1 (linesOf text) _
    (fun kept l => foldl_tokens htoken hwanted l.1 l.2 kept _ rfl) [] (fun _ h => absurd h
      not_mem_nil)
  rw [take_nil, nil_append] at hlines
  exact hlines

end Index

section OwnLine

variable {id : String} {n k : Nat} {lines : List (List Char)}

theorem firstNaming_succ (n : Nat) :
    firstNaming id (n + 1) lines = (firstNaming id n lines).map (· + 1) := by
  unfold firstNaming
  induction lines generalizing n with
  | nil => rfl
  | cons l lines ih =>
    unfold firstLine
    split
    · rfl
    · exact ih (n + 1)

theorem filter_zipIdx_of_lt (h : k < n) :
    ((lines.zipIdx n).filter fun l => l.2 ≠ k).map Prod.fst = lines := by
  rw [filter_eq_self.mpr, zipIdx_map_fst]
  rintro ⟨l, m⟩ hmem
  have hle := (mem_zipIdx hmem).1
  exact decide_eq_true (by omega)

/-- A line that is found with one line taken out, counted with it. -/
theorem firstNaming_other (h : n ≤ k) :
    ((firstNaming id n (((lines.zipIdx n).filter fun l => l.2 ≠ k).map Prod.fst)).map
      fun line => if k ≤ line then line + 1 else line) =
      firstLine (fun m l => m ≠ k ∧ Stands isPart id l) n lines := by
  induction lines generalizing n with
  | nil => rfl
  | cons l lines ih =>
    rw [zipIdx_cons]
    by_cases hown : n = k
    · subst hown
      have hrest : firstLine (fun m l => m ≠ n ∧ Stands isPart id l) (n + 1) lines =
          firstNaming id (n + 1) lines :=
        firstLine_congr (n + 1) fun m hm l _ => by
          simp [Nat.ne_of_gt (Nat.lt_of_succ_le hm)]
      rw [filter_cons_of_neg (by simp), filter_zipIdx_of_lt (Nat.lt_succ_self n), firstLine,
        if_neg (by simp), hrest, firstNaming_succ]
      refine Option.map_congr fun line hline => ?_
      rw [if_pos (le_firstLine hline)]
    · have hlt : n < k := by omega
      rw [filter_cons_of_pos (by simpa using hown), map_cons]
      unfold firstNaming firstLine
      by_cases hstands : Stands isPart id l
      · rw [if_pos hstands, if_pos ⟨hown, hstands⟩, map_some, if_neg (Nat.not_le.mpr hlt)]
      · rw [if_neg hstands, if_neg fun h => hstands h.2]
        exact ih hlt

/-- Lines that are joined again are searched like the lines. -/
theorem firstNaming_joined (hreturn : '\r' ∉ lowercase id.toList) (hne : id ≠ "")
    (hlines : ∀ l ∈ lines, '\n' ∉ l) (n : Nat) :
    firstNaming id n (linesOf (['\n'].intercalate lines)) = firstNaming id n lines := by
  have hnil := not_stands_nil hne
  induction lines generalizing n with
  | nil => rfl
  | cons l lines ih =>
    have hfirst := hlines l mem_cons_self
    cases lines with
    | nil =>
      rw [intercalate_singleton, linesOf_last hfirst]
      split
      · next hempty =>
        unfold firstNaming
        rw [hempty, firstLine, firstLine, if_neg hnil, firstLine]
      · rfl
    | cons l' lines =>
      rw [intercalate_cons_cons, append_assoc, singleton_append,
        linesOf_append hfirst]
      have hrest := ih (fun l hl => hlines l (mem_cons_of_mem _ hl)) (n + 1)
      unfold firstNaming at hrest ⊢
      rw [firstLine, stands_withoutReturn hreturn hne, hrest]
      rfl

end OwnLine

section Agreement

variable {isTestPath : String → Bool} {isTraced : String → String → Bool}
  {requirements : List Requirement} {docs : List SourceDoc} {sources : List (String × String)}
  {r : Requirement} {wanted : List (List Char)}

/-- The line of a document that the plain search finds, the requirement's own line passed over. -/
noncomputable def plainLine (r : Requirement) (d : SourceDoc) : Option Nat :=
  firstLine (fun n l => ¬ (d.path = r.path ∧ n = r.line) ∧ Stands isPart r.id l) 1
    (linesOf d.text.toList)

/-- The places of a requirement by the plain search. -/
noncomputable def plainTrace (isTestPath : String → Bool) (docs : List SourceDoc)
    (sources : List (String × String)) (r : Requirement) : Trace :=
  let files := sources.filterMap fun f =>
    (firstNaming r.id 1 (linesOf f.2.toList)).map fun l => ⟨f.1, l⟩
  { requirement := r
    documents := (docs.filterMap fun d => (plainLine r d).map fun l => ⟨d.path, l⟩).take PER_KIND
    code := (files.filter fun c => !isTestPath c.path).take PER_KIND
    tests := (files.filter fun c => isTestPath c.path).take PER_KIND }

/-- A trace names the places of the plain search, and a file is searched as a whole like line by
line. -/
def TraceAgrees (isTestPath : String → Bool) (isTraced : String → String → Bool)
    (requirements : List Requirement) (docs : List SourceDoc) (files : List (String × String)) :
    Prop :=
  trace isTestPath isTraced requirements docs files =
      some (requirements.map (plainTrace isTestPath docs
        (files.filter fun f => isTraced f.1 f.2))) ∧
    ∀ text (id : String), firstLineNamingLower text (lowercase text) (lowercase id.toList) =
      firstLineNaming text id.toList

/-- The searches for a requirement end, and what is left of its own document without its line
reads as the same lines. -/
def Searchable (docs : List SourceDoc) (sources : List (String × String)) (r : Requirement) :
    Prop :=
  isToken r.id.toList = true ∨ (∀ d ∈ docs, d.path ≠ r.path → Ends r.id (linesOf d.text.toList)) ∧
    (∀ f ∈ sources, Ends r.id (linesOf f.2.toList)) ∧
    ∀ d ∈ docs, d.path = r.path → (r.id ≠ "" ∧ '\r' ∉ lowercase r.id.toList) ∨
        (Ends r.id (otherLines d.text.toList r.line) ∧
          linesOf (['\n'].intercalate (otherLines d.text.toList r.line)) =
            otherLines d.text.toList r.line)

theorem isToken_lowercase (text : List Char) : isToken (lowercase text) = isToken text := by
  unfold isToken lowercase
  rw [List.all_map]
  congr 1
  · simp
  · exact congrArg text.all (funext isPart_toLower)

theorem mem_wanted_iff (hr : r ∈ requirements) :
    lowercase r.id.toList ∈ (requirements.filter fun r => isToken r.id.toList).map
        (fun r => lowercase r.id.toList) ↔ isToken r.id.toList = true := by
  constructor
  · intro h
    obtain ⟨r', hr', hsame⟩ := List.mem_map.mp h
    rw [← isToken_lowercase, ← hsame, isToken_lowercase]
    exact (mem_filter.mp hr').2
  · exact fun h => List.mem_map.mpr ⟨r, mem_filter.mpr ⟨hr, h⟩, rfl⟩

section

variable
  (hwanted : lowercase r.id.toList ∈ wanted ↔ isToken r.id.toList = true)
  (h : Searchable docs sources r)
include hwanted h

theorem documentLine_eq {d : SourceDoc} (hd : d ∈ docs) :
    documentLine wanted r d = some (plainLine r d) := by
  unfold documentLine plainLine
  simp only [contains_iff_mem]
  split
  · next hin =>
    have htoken : isToken (lowercase r.id.toList) = true := by
      rw [isToken_lowercase]
      exact hwanted.mp hin
    rw [linesNaming_eq htoken hin, find?_take_two nodup_namingLines, find?_namingLines]
    · refine congrArg some (firstLine_congr 1 fun n _ l _ => ?_)
      simp only [Bool.or_eq_true, decide_eq_true_eq, ne_eq, not_and_or]
    · intro m hm
      simpa using ((Bool.or_eq_false_iff.mp hm).2)
  · next hnot =>
    obtain ⟨hother, _, hown⟩ := h.resolve_left (mt hwanted.mpr hnot)
    split
    · next hpath =>
      have hlines : firstLineNaming (['\n'].intercalate (otherLines d.text.toList r.line))
          r.id.toList = some (firstNaming r.id 1 (otherLines d.text.toList r.line)) := by
        rcases hown d hd hpath with ⟨hne, hreturn⟩ | ⟨hends, hsame⟩
        · rw [firstLineNaming_eq fun h => absurd h hne, firstNaming_joined hreturn hne]
          intro l hl
          obtain ⟨⟨l', m⟩, hmem, rfl⟩ := List.mem_map.mp hl
          exact not_feed_mem_linesOf (fst_mem_of_mem_zipIdx (mem_filter.mp hmem).1)
        · rw [firstLineNaming_eq (hsame.symm ▸ hends), hsame]
      rw [hlines, map_some]
      refine congrArg some ((firstNaming_other r.line_pos).trans (firstLine_congr 1 ?_))
      intro n _ l _
      simp [hpath]
    · next hpath =>
      rw [firstLineNaming_eq (hother d hd hpath)]
      refine congrArg some (firstLine_congr 1 fun n _ l _ => ?_)
      simp [hpath]

theorem fileLine_eq {f : String × String} (hf : f ∈ sources) :
    fileLine wanted r f = some (firstNaming r.id 1 (linesOf f.2.toList)) := by
  unfold fileLine
  simp only [contains_iff_mem]
  split
  · next hin =>
    have htoken : isToken (lowercase r.id.toList) = true := by
      rw [isToken_lowercase]
      exact hwanted.mp hin
    have hhead : ∀ xs : List Nat, xs.head? = xs.find? fun _ => true := by
      intro xs
      cases xs <;> rfl
    rw [linesNaming_eq htoken hin, head?_take, if_neg (by decide), hhead, find?_namingLines]
    exact congrArg some (firstLine_congr 1 fun n _ l _ => by simp)
  · next hnot =>
    obtain ⟨_, hends, _⟩ := h.resolve_left (mt hwanted.mpr hnot)
    rw [firstLineNamingLower_eq, firstLineNaming_eq (hends f hf)]

end

theorem placesIn_eq {δ : Type} {path : δ → String} {line : δ → Option (Option Nat)}
    {plain : δ → Option Nat} {ds : List δ} (h : ∀ d ∈ ds, line d = some (plain d)) :
    placesIn path line ds = some (ds.filterMap fun d => (plain d).map fun l => ⟨path d, l⟩) := by
  induction ds with
  | nil => rfl
  | cons d ds ih =>
    unfold placesIn
    rw [h d mem_cons_self, ih fun d hd => h d (mem_cons_of_mem _ hd), filterMap_cons]
    cases plain d <;> rfl

/-- The places of each requirement are those of the plain search. -/
theorem trace_agrees (files : List (String × String))
    (h : ∀ r ∈ requirements, Searchable docs (files.filter fun f => isTraced f.1 f.2) r) :
    TraceAgrees isTestPath isTraced requirements docs files := by
  refine ⟨?_, firstLineNamingLower_eq⟩
  have hone : ∀ r ∈ requirements, traceOne isTestPath
      ((requirements.filter fun r => isToken r.id.toList).map fun r => lowercase r.id.toList) docs
      (files.filter fun f => isTraced f.1 f.2) r =
        some (plainTrace isTestPath docs (files.filter fun f => isTraced f.1 f.2) r) := by
    intro r hr
    unfold traceOne
    rw [placesIn_eq fun d hd => documentLine_eq (mem_wanted_iff hr) (h r hr) hd,
      placesIn_eq fun f hf => fileLine_eq (mem_wanted_iff hr) (h r hr) hf]
    rfl
  have hall : ∀ rs : List Requirement, (∀ r ∈ rs, r ∈ requirements) → rs.mapM (traceOne isTestPath
        ((requirements.filter fun r => isToken r.id.toList).map fun r => lowercase r.id.toList) docs
        (files.filter fun f => isTraced f.1 f.2)) =
      some (rs.map (plainTrace isTestPath docs (files.filter fun f => isTraced f.1 f.2))) := by
    intro rs
    induction rs with
    | nil => exact fun _ => rfl
    | cons r rs ih =>
      intro hin
      rw [mapM_cons, hone r (hin r mem_cons_self),
        ih fun r hr => hin r (mem_cons_of_mem _ hr)]
      rfl
  exact hall requirements fun _ hr => hr

/-- An identifier with a blank, and a file that names it on its second line. -/
def spaced : Requirement := ⟨"FR 1", "docs/prd.md", 1, by decide⟩

theorem spaced_agrees :
    TraceAgrees (fun _ => false) (fun _ _ => true) [spaced]
      [⟨"docs/prd.md", "FR 1\nsee fr 1\n"⟩] [("src/a.rs", "fn a\n// FR 1\n")] := by
  refine trace_agrees _ fun r hr => .inr ?_
  rw [mem_singleton.mp hr]
  have hne : spaced.id ≠ "" := by decide
  exact ⟨fun _ _ _ h => absurd h hne, fun _ _ h => absurd h hne,
    fun _ _ _ => .inl ⟨hne, by decide⟩⟩

/-- The search for an empty identifier goes past the end of a line. -/
theorem empty_requirement_hangs :
    ¬ TraceAgrees (fun _ => false) (fun _ _ => true) [⟨"", "docs/prd.md", 1, by decide⟩]
      [⟨"docs/adr.md", "a"⟩] [] := by
  rintro ⟨htrace, _⟩
  have hnone : documentLine [] ⟨"", "docs/prd.md", 1, by decide⟩ ⟨"docs/adr.md", "a"⟩ = none := by
    decide +kernel
  have hhangs : trace (fun _ => false) (fun _ _ => true)
      [⟨"", "docs/prd.md", 1, by decide⟩] [⟨"docs/adr.md", "a"⟩] [] = none := by
    show [(⟨"", "docs/prd.md", 1, by decide⟩ : Requirement)].mapM (traceOne _ [] _ _) = none
    rw [mapM_cons, traceOne, placesIn, hnone]
    rfl
  rw [hhangs] at htrace
  cases htrace

end Agreement

end Tracing
end Documents
end StudioWeb
