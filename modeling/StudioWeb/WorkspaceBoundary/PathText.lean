import StudioWeb.Library.FileTree
import StudioWeb.Library.SubstringSearch
import StudioWeb.WorkspaceJobs.SanitizeString
import Mathlib.Data.List.Infix

/-!
# The texts of relative paths

What `path.posix` does to the text of a path: `normalize` and `relative`, and what
`normalizeRelativePath` makes of a request.
-/

namespace StudioWeb
namespace WorkspaceBoundary

open FileTree WorkspaceJobs List

def joinNames (names : List Name) : List Char := ['/'].intercalate names

/-- `split('/').filter(Boolean)`. -/
def segments (text : List Char) : List Name := (text.splitOn '/').filter (fun n => n ≠ [])

/-- The segments of a path that lead somewhere else. -/
def pathParts (text : List Char) : List Name := (segments text).filter (fun n => n ≠ ['.'])

/-- `replace(/\\/g, '/')`. -/
def slashes (text : List Char) : List Char := text.map (fun c => if c = '\x5c' then '/' else c)

/-- One segment of `normalizeString`. -/
def normalizePart (allowAbove : Bool) (stack : List Name) (part : Name) : List Name :=
  if part = [] ∨ part = ['.'] then
    stack
  else if part = ['.', '.'] then
    match stack.getLast? with
    | none => if allowAbove then [['.', '.']] else []
    | some last => if last = ['.', '.'] then stack ++ [['.', '.']] else stack.dropLast
  else
    stack ++ [part]

def normalizeParts (allowAbove : Bool) (parts : List Name) : List Name :=
  parts.foldl (normalizePart allowAbove) []

def isAbsolute (text : List Char) : Bool := text.head? == some '/'

def normalize (text : List Char) : List Char :=
  if text = [] then
    ['.']
  else
    let body := joinNames (normalizeParts (!isAbsolute text) (text.splitOn '/'))
    let trailing := text.getLast? == some '/'
    if body = [] then
      if isAbsolute text then ['/'] else if trailing then ['.', '/'] else ['.']
    else
      (if isAbsolute text then ['/'] else []) ++ body ++ (if trailing then ['/'] else [])

/-- The names that lead from one directory to a path. -/
def relativeParts : List Name → List Name → List Name
  | a :: parent, b :: candidate =>
    if a = b then relativeParts parent candidate
    else List.replicate (parent.length + 1) ['.', '.'] ++ b :: candidate
  | [], candidate => candidate
  | parent, [] => List.replicate parent.length ['.', '.']

def relative (parent candidate : List Name) : List Char :=
  joinNames (relativeParts parent candidate)

/-- What an operating system refuses. -/
inductive OsError where
  | missing
  | notDirectory
  | tooManyLinks
deriving DecidableEq

/-- How a request fails: with a message, or with an error of the operating system. -/
inductive Refusal where
  | error (message : String)
  | os (code : OsError)
deriving DecidableEq

def refuse {α : Type} (message : String) : Except Refusal α := .error (.error message)

def traversal : String := "Path traversal outside the workspace root is not allowed"

def assertWithin (parent candidate : List Name) (message : String) : Except Refusal Unit :=
  let text := relative parent candidate
  if text = [] ∨ (¬ ['.', '.'].isPrefixOf text ∧ ¬ isAbsolute text) then
    .ok ()
  else
    refuse message

/-- `replace(/^\.\/+/, '')`. -/
def dropDotSlash : List Char → List Char
  | '.' :: '/' :: text => text.dropWhile (fun c => c == '/')
  | text => text

def normalizeRelativePath (input : List Char) : Except Refusal (List Char) :=
  let trimmed := jsTrim input
  if trimmed = [] then
    refuse "Workspace relative path is required"
  else if isAbsolute trimmed then
    refuse "Absolute workspace paths are not allowed"
  else
    let normalized := normalize (slashes trimmed)
    if normalized = ['.', '.'] ∨ ['.', '.', '/'].isPrefixOf normalized then
      refuse traversal
    else if normalized = ['.'] ∨ normalized = [] then
      .ok ['.']
    else
      .ok (dropDotSlash normalized)

/-- Every part is a name. -/
def AllNames (names : List Name) : Prop := ∀ n ∈ names, IsName n

theorem joinNames_cons {n m : Name} {names : List Name} :
    joinNames (n :: m :: names) = n ++ '/' :: joinNames (m :: names) := by
  simp [joinNames, List.intercalate]

theorem joinNames_singleton (n : Name) : joinNames [n] = n := by
  simp [joinNames, List.intercalate]

theorem joinNames_eq_nil_iff {names : List Name} (h : AllNames names) :
    joinNames names = [] ↔ names = [] := by
  cases names with
  | nil => exact ⟨fun _ => rfl, fun _ => rfl⟩
  | cons n names =>
    have hne := (h n mem_cons_self).1
    constructor
    · intro hjoin
      cases names with
      | nil =>
        rw [joinNames_singleton] at hjoin
        exact absurd hjoin hne
      | cons =>
        rw [joinNames_cons] at hjoin
        exact absurd (append_eq_nil_iff.mp hjoin).1 hne
    · nofun

theorem head_joinNames {n : Name} {names : List Name} (hne : n ≠ []) :
    (joinNames (n :: names)).head? = n.head? := by
  obtain ⟨c, n, rfl⟩ := exists_cons_of_ne_nil hne
  cases names with
  | nil => rw [joinNames_singleton]
  | cons =>
    rw [joinNames_cons]
    rfl

theorem last_joinNames {names : List Name} (h : AllNames names) :
    (joinNames names).getLast? ≠ some '/' := by
  induction names with
  | nil => nofun
  | cons n names ih =>
    cases names with
    | nil =>
      rw [joinNames_singleton]
      intro hlast
      exact (h n mem_cons_self).2.2.2 (mem_of_getLast? hlast)
    | cons m names =>
      have hrest : AllNames (m :: names) :=
        fun other hin => h other (mem_cons_of_mem n hin)
      have hne : joinNames (m :: names) ≠ [] :=
        fun hnil => cons_ne_nil m names ((joinNames_eq_nil_iff hrest).mp hnil)
      rw [joinNames_cons, append_cons, getLast?_append_of_ne_nil _ hne]
      exact ih hrest

theorem splitOn_joinNames {names : List Name} (h : AllNames names) (hne : names ≠ []) :
    (joinNames names).splitOn '/' = names :=
  splitOn_intercalate '/' (fun n hn => (h n hn).2.2.2) hne

theorem segments_joinNames {names : List Name} (h : AllNames names) :
    segments (joinNames names) = names := by
  unfold segments
  cases names with
  | nil => rfl
  | cons n names =>
    rw [splitOn_joinNames h (cons_ne_nil n names), filter_eq_self]
    intro m hm
    simpa using (h m hm).1

theorem segments_wrapped {names : List Name} {lead trail : List Char} (h : AllNames names)
    (hlead : lead = [] ∨ lead = ['/']) (htrail : trail = [] ∨ trail = ['/']) :
    segments (lead ++ joinNames names ++ trail) = names := by
  have hfront : ∀ text, segments ('/' :: text) = segments text := by
    intro text
    unfold segments
    rw [splitOn_cons_eq_if_modifyHead]
    simp
  have hback : ∀ text, segments (text ++ ['/']) = segments text := by
    intro text
    unfold segments
    rw [splitOn_append_cons_self]
    simp
  have hmiddle := segments_joinNames h
  rcases hlead with rfl | rfl <;> rcases htrail with rfl | rfl
  · rw [nil_append, append_nil, hmiddle]
  · rw [nil_append, hback, hmiddle]
  · rw [append_nil, singleton_append, hfront, hmiddle]
  · rw [hback, singleton_append, hfront, hmiddle]

theorem filter_dots {names : List Name} (h : AllNames names) :
    names.filter (fun n => n ≠ ['.']) = names := by
  rw [filter_eq_self]
  intro n hn
  simpa using (h n hn).2.1

theorem pathParts_joinNames {names : List Name} (h : AllNames names) :
    pathParts (joinNames names) = names := by
  unfold pathParts
  rw [segments_joinNames h]
  exact filter_dots h

/-- A path climbs when it begins above where it starts. -/
def StackClimbs (stack : List Name) : Prop := stack.head? = some ['.', '.']

instance (stack : List Name) : Decidable (StackClimbs stack) :=
  inferInstanceAs (Decidable (_ = _))

theorem climbs_or_names_step {allowAbove : Bool} {stack : List Name} {part : Name}
    (hpart : '/' ∉ part) (h : StackClimbs stack ∨ AllNames stack) :
    StackClimbs (normalizePart allowAbove stack part) ∨
      AllNames (normalizePart allowAbove stack part) := by
  unfold normalizePart
  split
  · exact h
  · next hhere =>
    rw [not_or] at hhere
    split
    · split
      · split
        · exact Or.inl rfl
        · exact Or.inr nofun
      · next last hlast =>
        have hne : stack ≠ [] := by
          rintro rfl
          cases hlast
        obtain ⟨front, hfront⟩ : ∃ front, stack = front ++ [last] :=
          ⟨stack.dropLast, (dropLast_append_getLast? last hlast).symm⟩
        subst hfront
        split
        · next hdots =>
          rcases h with hclimbs | hnames
          · left
            unfold StackClimbs at hclimbs ⊢
            rw [head?_append, hclimbs]
            rfl
          · have hlastName := hnames last (mem_append_right front mem_cons_self)
            exact absurd hdots hlastName.2.2.1
        · next hdots =>
          rw [dropLast_concat]
          rcases h with hclimbs | hnames
          · left
            unfold StackClimbs at hclimbs ⊢
            cases front with
            | nil =>
              rw [nil_append] at hclimbs
              exact absurd (Option.some.inj hclimbs) hdots
            | cons => exact hclimbs
          · exact Or.inr (fun n hn => hnames n (mem_append_left [last] hn))
    · next hup =>
      rcases h with hclimbs | hnames
      · left
        unfold StackClimbs at hclimbs ⊢
        rw [head?_append, hclimbs]
        rfl
      · right
        intro n hn
        rcases mem_append.mp hn with hn | hn
        · exact hnames n hn
        · rw [mem_singleton.mp hn]
          exact ⟨hhere.1, hhere.2, hup, hpart⟩

/-- A path that does not climb is normalized to names. -/
theorem names_of_normalizeParts {allowAbove : Bool} {parts : List Name}
    (hparts : ∀ n ∈ parts, '/' ∉ n) :
    StackClimbs (normalizeParts allowAbove parts) ∨
      AllNames (normalizeParts allowAbove parts) := by
  have hfold : ∀ (parts stack : List Name), (∀ n ∈ parts, '/' ∉ n) →
      StackClimbs stack ∨ AllNames stack →
      StackClimbs (parts.foldl (normalizePart allowAbove) stack) ∨
        AllNames (parts.foldl (normalizePart allowAbove) stack) := by
    intro parts
    induction parts with
    | nil => exact fun _ _ h => h
    | cons part _ ih =>
      intro stack hparts h
      exact ih _ (fun n hn => hparts n (mem_cons_of_mem part hn))
        (climbs_or_names_step (hparts part mem_cons_self) h)
  exact hfold parts [] hparts (Or.inr nofun)

theorem normalizeParts_names {allowAbove : Bool} {names : List Name} (h : AllNames names) :
    normalizeParts allowAbove names = names := by
  have hfold : ∀ (names stack : List Name), AllNames names →
      names.foldl (normalizePart allowAbove) stack = stack ++ names := by
    intro names
    induction names with
    | nil => exact fun stack _ => (append_nil stack).symm
    | cons n _ ih =>
      intro stack hnames
      obtain ⟨hpart, hup⟩ := (hnames n mem_cons_self).part
      rw [foldl_cons, ih _ (fun m hm => hnames m (mem_cons_of_mem n hm))]
      unfold normalizePart
      rw [if_neg hpart, if_neg hup, append_assoc]
      rfl
  exact hfold names [] h

theorem names_of_absolute {parts : List Name} (hparts : ∀ n ∈ parts, '/' ∉ n) :
    AllNames (normalizeParts false parts) := by
  have hfold : ∀ (parts stack : List Name), (∀ n ∈ parts, '/' ∉ n) → AllNames stack →
      AllNames (parts.foldl (normalizePart false) stack) := by
    intro parts
    induction parts with
    | nil => exact fun _ _ h => h
    | cons part _ ih =>
      intro stack hparts h
      refine ih _ (fun n hn => hparts n (mem_cons_of_mem part hn)) ?_
      unfold normalizePart
      split
      · exact h
      · next hhere =>
        rw [not_or] at hhere
        split
        · split
          · exact nofun
          · next last hlast =>
            have hmem : last ∈ stack := mem_of_getLast? hlast
            rw [if_neg (h last hmem).2.2.1]
            exact fun n hn => h n (dropLast_subset stack hn)
        · next hup =>
          intro n hn
          rcases mem_append.mp hn with hn | hn
          · exact h n hn
          · rw [mem_singleton.mp hn]
            exact ⟨hhere.1, hhere.2, hup, hparts part mem_cons_self⟩
  exact hfold parts [] hparts nofun

theorem first_name {n x : Name} {names : List Name} {trail : List Char} (hn : IsName n)
    (hx : '/' ∉ x) (htrail : trail = [] ∨ trail = ['/'])
    (h : x ++ ['/'] <+: joinNames (n :: names) ++ trail) : x = n := by
  obtain ⟨behind, hbehind⟩ := h
  have hslash := hn.2.2.2
  rw [append_assoc, singleton_append] at hbehind
  cases names with
  | cons =>
    rw [joinNames_cons, append_assoc, cons_append] at hbehind
    exact (append_separator_injective hx hslash hbehind).1
  | nil =>
    rw [joinNames_singleton] at hbehind
    rcases htrail with rfl | rfl
    · rw [append_nil] at hbehind
      rw [← hbehind] at hslash
      simp at hslash
    · exact (append_separator_injective hx hslash hbehind).1

/-- The names that a request asks for, `..` in front where it begins above the root. -/
def asked (input : List Char) : List Name :=
  let text := slashes (jsTrim input)
  normalizeParts (!isAbsolute text) (text.splitOn '/')

/-- The path that a request asks for begins above the root. -/
def Climbs (input : List Char) : Prop := StackClimbs (asked input)

instance (input : List Char) : Decidable (Climbs input) :=
  inferInstanceAs (Decidable (StackClimbs _))

/-- How a request reads that is not refused: as the root, or as names with slashes around. -/
structure ReadsAs (rel : List Char) (names : List Name) : Prop where
  plain : AllNames names
  text : rel = ['.'] ∧ names = [] ∨
    ∃ lead trail, (lead = [] ∨ lead = ['/']) ∧ (trail = [] ∨ trail = ['/']) ∧
      rel = lead ++ joinNames names ++ trail

theorem ReadsAs.segments {rel : List Char} {names : List Name} (h : ReadsAs rel names) :
    segments rel = names ∨ rel = ['.'] ∧ names = [] := by
  rcases h.text with hroot | ⟨lead, trail, hlead, htrail, rfl⟩
  · exact Or.inr hroot
  · exact Or.inl (segments_wrapped h.plain hlead htrail)

theorem ReadsAs.pathParts {rel : List Char} {names : List Name} (h : ReadsAs rel names) :
    pathParts rel = names := by
  unfold WorkspaceBoundary.pathParts
  rcases h.segments with hsegments | ⟨rfl, rfl⟩
  · rw [hsegments]
    exact filter_dots h.plain
  · rfl

theorem wrapped_plain {n : Name} {names : List Name} {lead trail : List Char}
    (h : AllNames (n :: names)) (hlead : lead = [] ∨ lead = ['/'])
    (htrail : trail = [] ∨ trail = ['/']) :
    lead ++ joinNames (n :: names) ++ trail ≠ ['.', '.'] ∧
      ¬ ['.', '.', '/'] <+: lead ++ joinNames (n :: names) ++ trail ∧
      lead ++ joinNames (n :: names) ++ trail ≠ ['.'] ∧
      lead ++ joinNames (n :: names) ++ trail ≠ [] ∧
      dropDotSlash (lead ++ joinNames (n :: names) ++ trail) =
        lead ++ joinNames (n :: names) ++ trail := by
  have hn := h n mem_cons_self
  obtain ⟨c, rest, hc⟩ := exists_cons_of_ne_nil
    (fun hnil => cons_ne_nil n names ((joinNames_eq_nil_iff h).mp hnil))
  rcases hlead with rfl | rfl
  · rw [nil_append]
    have hwhole : ∀ x : Name, '/' ∉ x → joinNames (n :: names) ++ trail = x → x = n := by
      intro x hx heq
      have hmore := @first_name n x names ['/'] hn hx (Or.inr rfl)
      rcases htrail with rfl | rfl
      · rw [append_nil] at heq
        refine hmore ?_
        rw [heq]
      · rw [← heq] at hx
        exact absurd (mem_append_right _ mem_cons_self) hx
    refine ⟨fun heq => hn.2.2.1 (hwhole _ (by decide) heq).symm, ?_,
      fun heq => hn.2.1 (hwhole _ (by decide) heq).symm, ?_, ?_⟩
    · intro hstarts
      have hfirst := @first_name n ['.', '.'] names trail hn (by decide) htrail hstarts
      exact hn.2.2.1 hfirst.symm
    · rw [hc]
      nofun
    · have hnot : ¬ ['.', '/'] <+: joinNames (n :: names) ++ trail := by
        intro hstarts
        have hfirst := @first_name n ['.'] names trail hn (by decide) htrail hstarts
        exact hn.2.1 hfirst.symm
      unfold dropDotSlash
      split
      · next text heq =>
        rw [heq] at hnot
        exact absurd (prefix_append ['.', '/'] text) hnot
      · rfl
  · refine ⟨nofun, ?_, nofun, nofun, rfl⟩
    rintro ⟨behind, hbehind⟩
    cases hbehind

theorem normalize_names {text : List Char} (hne : text ≠ [])
    (h : AllNames (normalizeParts (!isAbsolute text) (text.splitOn '/'))) :
    (normalizeParts (!isAbsolute text) (text.splitOn '/') = [] ∧
        (normalize text = ['.'] ∨ normalize text = ['/'] ∨ normalize text = ['.', '/'])) ∨
      ∃ lead trail, (lead = [] ∨ lead = ['/']) ∧ (trail = [] ∨ trail = ['/']) ∧
        normalizeParts (!isAbsolute text) (text.splitOn '/') ≠ [] ∧
        normalize text =
          lead ++ joinNames (normalizeParts (!isAbsolute text) (text.splitOn '/')) ++ trail := by
  unfold normalize
  rw [if_neg hne]
  by_cases hparts : normalizeParts (!isAbsolute text) (text.splitOn '/') = []
  · left
    refine ⟨hparts, ?_⟩
    rw [hparts]
    simp only [@joinNames_eq_nil_iff [] nofun, if_true]
    split
    · exact Or.inr (Or.inl rfl)
    · split
      · exact Or.inr (Or.inr rfl)
      · exact Or.inl rfl
  · right
    refine ⟨if isAbsolute text then ['/'] else [],
      if text.getLast? == some '/' then ['/'] else [], ?_, ?_, hparts, ?_⟩
    · split
      · exact Or.inr rfl
      · exact Or.inl rfl
    · split
      · exact Or.inr rfl
      · exact Or.inl rfl
    · simp only [joinNames_eq_nil_iff h, hparts, if_false]

theorem normalize_climbs {text : List Char} (hne : text ≠ []) (habsolute : isAbsolute text = false)
    (h : StackClimbs (normalizeParts (!isAbsolute text) (text.splitOn '/'))) :
    normalize text = ['.', '.'] ∨ ['.', '.', '/'] <+: normalize text := by
  unfold StackClimbs at h
  unfold normalize
  rw [if_neg hne]
  simp only [habsolute, Bool.not_false] at h ⊢
  obtain ⟨names, hnames⟩ : ∃ names,
      normalizeParts true (text.splitOn '/') = ['.', '.'] :: names := by
    cases hparts : normalizeParts true (text.splitOn '/') with
    | nil =>
      rw [hparts] at h
      cases h
    | cons _ names =>
      rw [hparts] at h
      exact ⟨names, by rw [Option.some.inj h]⟩
  rw [hnames]
  cases names with
  | nil =>
    rw [joinNames_singleton, if_neg (by decide)]
    simp only [Bool.false_eq_true, if_false, nil_append]
    split
    · exact Or.inr (prefix_refl _)
    · exact Or.inl rfl
  | cons m names =>
    rw [joinNames_cons, if_neg (by simp)]
    right
    simp only [Bool.false_eq_true, if_false, nil_append]
    exact ⟨joinNames (m :: names) ++ _, rfl⟩

theorem slashes_ne_nil {text : List Char} (h : text ≠ []) : slashes text ≠ [] :=
  fun hnil => h (map_eq_nil_iff.mp hnil)

theorem climbs_or_names (input : List Char) : Climbs input ∨ AllNames (asked input) :=
  names_of_normalizeParts not_mem_of_mem_splitOn

theorem not_climbs_of_absolute {text : List Char} (h : isAbsolute text = true) :
    ¬ StackClimbs (normalizeParts (!isAbsolute text) (text.splitOn '/')) := by
  intro hclimbs
  have hnames := @names_of_absolute (text.splitOn '/') not_mem_of_mem_splitOn
  rw [h] at hclimbs
  exact (hnames _ (mem_of_head? hclimbs)).2.2.1 rfl

theorem normalizeRelativePath_climbs {input : List Char} (h : Climbs input) :
    ∃ refusal, normalizeRelativePath input = .error refusal := by
  unfold normalizeRelativePath
  simp only
  split
  · exact ⟨_, rfl⟩
  · next hne =>
    split
    · exact ⟨_, rfl⟩
    · have habsolute : isAbsolute (slashes (jsTrim input)) = false := by
        cases hcase : isAbsolute (slashes (jsTrim input)) with
        | false => rfl
        | true => exact absurd h (not_climbs_of_absolute hcase)
      have hnormal := normalize_climbs (slashes_ne_nil hne) habsolute h
      rw [if_pos (by rwa [List.isPrefixOf_iff_prefix])]
      exact ⟨_, rfl⟩

/-- What a request that asks for names is read as. -/
theorem normalizeRelativePath_reads {input : List Char} (h : AllNames (asked input)) :
    normalizeRelativePath input = refuse "Workspace relative path is required" ∨
      normalizeRelativePath input = refuse "Absolute workspace paths are not allowed" ∨
      ∃ rel, normalizeRelativePath input = .ok rel ∧
        ReadsAs rel (asked input) := by
  unfold asked at h ⊢
  unfold normalizeRelativePath
  simp only
  split
  · exact Or.inl rfl
  · next hne =>
    right
    split
    · exact Or.inl rfl
    · right
      rcases normalize_names (slashes_ne_nil hne) h with
        ⟨hnil, hroot⟩ | ⟨lead, trail, hlead, htrail, hparts, htext⟩
      · rw [hnil]
        rcases hroot with hroot | hroot | hroot
        · exact ⟨_, by rw [hroot]; rfl, nofun, Or.inl ⟨rfl, rfl⟩⟩
        · exact ⟨_, by rw [hroot]; rfl, nofun, Or.inr ⟨['/'], [], Or.inr rfl, Or.inl rfl, rfl⟩⟩
        · exact ⟨_, by rw [hroot]; rfl, nofun, Or.inr ⟨[], [], Or.inl rfl, Or.inl rfl, rfl⟩⟩
      · obtain ⟨n, names, hcons⟩ := exists_cons_of_ne_nil hparts
        rw [hcons] at h htext ⊢
        obtain ⟨hup, hclimb, hdot, hempty, hdrop⟩ := wrapped_plain h hlead htrail
        refine ⟨_, ?_, h, Or.inr ⟨lead, trail, hlead, htrail, rfl⟩⟩
        rw [htext, if_neg (by simp only [List.isPrefixOf_iff_prefix, hup, hclimb, or_self,
          not_false_eq_true]), if_neg (by simp only [hdot, hempty, or_self,
          not_false_eq_true]), hdrop]

theorem slashes_joinNames {names : List Name} (h : ∀ n ∈ names, '\x5c' ∉ n) :
    slashes (joinNames names) = joinNames names := by
  have hname : ∀ n : Name, '\x5c' ∉ n → slashes n = n := by
    intro n hn
    have hsame : ∀ c ∈ n, (if c = '\x5c' then '/' else c) = id c := by
      intro c hc
      have hother : c ≠ '\x5c' := fun heq => hn (by rwa [heq] at hc)
      rw [if_neg hother]
      rfl
    unfold slashes
    rw [map_congr_left hsame, map_id]
  induction names with
  | nil => rfl
  | cons n names ih =>
    have hn := hname n (h n mem_cons_self)
    cases names with
    | nil =>
      rw [joinNames_singleton]
      exact hn
    | cons =>
      have hrest := ih (fun other hin => h other (mem_cons_of_mem n hin))
      rw [joinNames_cons]
      unfold slashes at hn hrest ⊢
      rw [map_append, map_cons, hn, hrest]
      rfl

/-- Names that are joined stay what they are. -/
theorem normalizeRelativePath_names {names : List Name} (h : AllNames names) (hne : names ≠ [])
    (hslashes : ∀ n ∈ names, '\x5c' ∉ n) (htrim : jsTrim (joinNames names) = joinNames names) :
    normalizeRelativePath (joinNames names) = .ok (joinNames names) := by
  obtain ⟨n, names, rfl⟩ := exists_cons_of_ne_nil hne
  have hn := h n mem_cons_self
  have hjoin : joinNames (n :: names) ≠ [] :=
    fun hnil => hne ((joinNames_eq_nil_iff h).mp hnil)
  have habsolute : isAbsolute (joinNames (n :: names)) = false := by
    unfold isAbsolute
    rw [head_joinNames hn.1]
    have hslash : n.head? ≠ some '/' := fun hhead => hn.2.2.2 (mem_of_head? hhead)
    simpa using hslash
  have hnormal : normalize (joinNames (n :: names)) = joinNames (n :: names) := by
    unfold normalize
    have hlast := last_joinNames h
    rw [if_neg hjoin, splitOn_joinNames h hne, normalizeParts_names h]
    simp only [hjoin, habsolute, if_false, Bool.false_eq_true, nil_append, beq_iff_eq,
      hlast, append_nil]
  obtain ⟨hup, hclimb, hdot, hempty, hdrop⟩ :=
    @wrapped_plain n names [] [] h (Or.inl rfl) (Or.inl rfl)
  rw [nil_append, append_nil] at hup hclimb hdot hempty hdrop
  unfold normalizeRelativePath
  simp only [htrim, slashes_joinNames hslashes, hnormal, hjoin, habsolute, hup, hdot,
    List.isPrefixOf_iff_prefix, hclimb, hdrop, or_self, if_false, Bool.false_eq_true]

theorem normalizeRelativePath_here : normalizeRelativePath ['.'] = .ok ['.'] := by
  decide

theorem relativeParts_append :
    ∀ parent names : List Name, relativeParts parent (parent ++ names) = names
  | [], _ => rfl
  | a :: parent, names => by
    rw [cons_append]
    unfold relativeParts
    rw [if_pos rfl]
    exact relativeParts_append parent names

theorem relative_append (parent names : List Name) :
    relative parent (parent ++ names) = joinNames names := by
  unfold relative
  rw [relativeParts_append]

theorem relativeParts_cases :
    ∀ parent candidate : List Name,
      (∃ names, candidate = parent ++ names ∧ relativeParts parent candidate = names) ∨
        (relativeParts parent candidate).head? = some ['.', '.'] ∧ ¬ parent <+: candidate
  | [], candidate => Or.inl ⟨candidate, rfl, rfl⟩
  | a :: parent, [] => by
    refine Or.inr ⟨rfl, ?_⟩
    rintro ⟨rest, hrest⟩
    cases hrest
  | a :: parent, b :: candidate => by
    unfold relativeParts
    by_cases hsame : a = b
    · subst hsame
      rw [if_pos rfl]
      rcases relativeParts_cases parent candidate with ⟨names, rfl, hnames⟩ | ⟨hup, hnot⟩
      · exact Or.inl ⟨names, rfl, hnames⟩
      · refine Or.inr ⟨hup, fun hstarts => hnot ?_⟩
        exact (cons_prefix_cons.mp hstarts).2
    · rw [if_neg hsame]
      refine Or.inr ⟨rfl, fun hstarts => hsame ?_⟩
      exact (cons_prefix_cons.mp hstarts).1

/-- A path inside a directory, whose first name there does not begin with two dots. -/
def InsidePlain (parent candidate : List Name) : Prop :=
  ∃ names, candidate = parent ++ names ∧ ∀ n, names.head? = some n → ¬ ['.', '.'] <+: n

theorem dots_joinNames {n : Name} {names : List Name} (hne : n ≠ []) :
    ['.', '.'] <+: joinNames (n :: names) ↔ ['.', '.'] <+: n := by
  cases names with
  | nil => rw [joinNames_singleton]
  | cons =>
    rw [joinNames_cons]
    constructor
    · rintro ⟨behind, hbehind⟩
      match n, hne with
      | [c], _ => simp at hbehind
      | c :: d :: n, _ =>
        simp only [cons_append, nil_append, List.cons.injEq] at hbehind
        obtain ⟨rfl, rfl, _⟩ := hbehind
        exact ⟨n, rfl⟩
    · exact fun hstarts => hstarts.trans (prefix_append n _)

/-- Which paths are within a directory. -/
theorem assertWithin_iff {parent candidate : List Name} {message : String}
    (h : AllNames candidate) :
    assertWithin parent candidate message = .ok () ↔ InsidePlain parent candidate := by
  unfold assertWithin relative
  rcases relativeParts_cases parent candidate with ⟨names, rfl, hnames⟩ | ⟨hup, hnot⟩
  · rw [hnames]
    have hall : AllNames names := fun n hn => h n (mem_append_right parent hn)
    have hinside : InsidePlain parent (parent ++ names) ↔
        ∀ n, names.head? = some n → ¬ ['.', '.'] <+: n := by
      constructor
      · rintro ⟨names', heq, hplain⟩
        rw [append_cancel_left heq]
        exact hplain
      · exact fun hplain => ⟨names, rfl, hplain⟩
    rw [hinside]
    cases names with
    | nil => simp [joinNames, List.intercalate]
    | cons n names =>
      have hn := hall n mem_cons_self
      have hjoin : joinNames (n :: names) ≠ [] :=
        fun hnil => cons_ne_nil n names ((joinNames_eq_nil_iff hall).mp hnil)
      have habsolute : isAbsolute (joinNames (n :: names)) = false := by
        unfold isAbsolute
        rw [head_joinNames hn.1]
        have hslash : n.head? ≠ some '/' := fun hhead =>
          hn.2.2.2 (mem_of_head? hhead)
        simpa using hslash
      simp only [hjoin, habsolute, false_or, List.isPrefixOf_iff_prefix, dots_joinNames hn.1,
        head?_cons, Option.some.injEq, forall_eq', Bool.false_eq_true, not_false_eq_true,
        and_true]
      split
      · next hplain => exact ⟨fun _ => hplain, fun _ => rfl⟩
      · next hdots =>
        constructor
        · nofun
        · exact fun hplain => absurd hplain hdots
  · cases hparts : relativeParts parent candidate with
    | nil =>
      rw [hparts] at hup
      cases hup
    | cons _ names =>
      rw [hparts] at hup
      cases hup
      have hdots : ['.', '.'] <+: joinNames (['.', '.'] :: names) :=
        (dots_joinNames (by decide)).mpr (prefix_refl _)
      have hne : joinNames (['.', '.'] :: names) ≠ [] := by
        intro hnil
        rw [hnil] at hdots
        exact absurd hdots (by decide)
      rw [if_neg (by simp [hne, List.isPrefixOf_iff_prefix, hdots])]
      constructor
      · nofun
      · rintro ⟨names, rfl, _⟩
        exact absurd (prefix_append parent names) hnot

end WorkspaceBoundary
end StudioWeb
