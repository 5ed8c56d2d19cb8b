import Mathlib
import StudioWeb.Environments.Deployments
import StudioWeb.Library.Placeholders

/-!
# Environments, and the namespaces that their patterns give

`Environment` of `environments/model.rs`, `slug` and `namespace_for`.  An environment is
what `checked` lets through: its pattern holds the project, and gives a sample project a
namespace.
-/

namespace StudioWeb
namespace Environments

open Scheduler (Uuid)
open Placeholders List

structure Invalid where
  field : String
  reason : String
deriving DecidableEq

inductive EnvironmentKind where
  | kubernetes
  | research
deriving DecidableEq

def isDnsLabel (s : List Char) : Bool :=
  s ≠ [] && s.length ≤ 63 && s.all (fun c => c.isLower || c.isDigit || c = '-') &&
    s.head? ≠ some '-' && s.getLast? ≠ some '-'

/-- The loop of `slug`, with whether a `-` was the last it wrote. -/
def slugFrom : Bool → List Char → List Char
  | _, [] => []
  | dashed, c :: rest =>
    if c.isAlphanum then
      c.toLower :: slugFrom false rest
    else if dashed then
      slugFrom true rest
    else
      '-' :: slugFrom true rest

/-- `str::trim_end_matches` of a character. -/
def trimEndMatches (c : Char) (text : List Char) : List Char :=
  (text.reverse.dropWhile fun x => x = c).reverse

/-- `str::trim_matches` of a character. -/
def trimMatches (c : Char) (text : List Char) : List Char :=
  trimEndMatches c (text.dropWhile fun x => x = c)

def slug (s : List Char) : List Char := trimMatches '-' (slugFrom false s)

def patternMarks : Brackets Char where
  opens := '{'
  closes := '}'
  firstName := "project".toList
  secondName := "environment".toList
  apart := by decide
  different := by decide
  firstFree := by decide
  secondFree := by decide

/-- The text that `namespace_for` makes of a pattern. -/
def patternText (pattern project environment : String) : List Char :=
  patternMarks.fill (slug project.toList) (slug environment.toList) pattern.toList

def namespaceFor (pattern project environment : String) : Except Invalid String :=
  let ns := patternText pattern project environment
  if isDnsLabel ns then
    .ok (.ofList ns)
  else
    .error
      { field := "namespace_pattern"
        reason := s!"'{pattern}' gives '{String.ofList ns}' for project '{project}', " ++
          "which is not a Kubernetes namespace (lowercase letters, digits and '-', at most 63)" }

def DEFAULT_NAMESPACE_PATTERN : String := "\x7bproject\x7d-\x7benvironment\x7d"

theorem default_holdsProject :
    patternMarks.firstMark <:+: DEFAULT_NAMESPACE_PATTERN.toList := by
  decide

def DEFAULT_BUILD_NAMESPACE_PATTERN : String := "\x7bproject\x7d-build"

structure ResearchTarget where
  project : String
  hardware : Option String
deriving DecidableEq

structure PreviewSettings where
  domain : String
  ttlHours : Nat
  maxLive : Nat
deriving DecidableEq

/-- `Environment`, as `checked` leaves it. -/
structure Environment where
  id : Uuid
  name : String
  kind : EnvironmentKind
  connectionId : Uuid
  research : Option ResearchTarget
  registry : String
  registryConnectionId : Option Uuid
  namespacePattern : String
  isProtected : Bool
  promoteFrom : Option Uuid
  projects : Option (List Uuid)
  projectId : Option Uuid
  previews : Option PreviewSettings
  buildNamespace : Option String
  namespaces : Option (List String)
  named : isDnsLabel name.toList = true
  holdsProject : patternMarks.firstMark <:+: namespacePattern.toList
  givesNamespace : isDnsLabel (patternText namespacePattern "a-project" name) = true

namespace Environment

def admits (env : Environment) (project : Uuid) : Bool :=
  match env.projectId with
  | some owner => owner = project
  | none => env.projects.all fun projects => project ∈ projects

/-- The namespace the pattern gives a name, or what `namespace_for` says against it. -/
def patternNamespace (env : Environment) (name : String) : Except Invalid String :=
  namespaceFor env.namespacePattern name env.name

def buildNamespaceFor (env : Environment) (slug : String) : Except Invalid String :=
  let pattern := env.buildNamespace.getD DEFAULT_BUILD_NAMESPACE_PATTERN
  match namespaceFor pattern slug env.name with
  | .ok ns => .ok ns
  | .error e => .error { field := "build_namespace", reason := e.reason }

end Environment

example :
    namespaceFor DEFAULT_NAMESPACE_PATTERN "Studio  Web 2" "prod" = .ok "studio-web-2-prod" := by
  decide

section Slug

def isSlugChar (c : Char) : Bool := c.isLower || c.isDigit || c = '-'

variable {c : Char}

theorem isSlugChar_toLower (h : c.isAlphanum = true) :
    (c.toLower.isLower || c.toLower.isDigit) = true := by
  simp only [Char.isAlphanum, Char.isAlpha, Char.isUpper, Char.isLower, Char.isDigit,
    Char.toLower, ge_iff_le, UInt32.le_iff_toNat_le, Bool.or_eq_true, Bool.and_eq_true,
    decide_eq_true_eq] at h ⊢
  have hA : 'A'.val.toNat = 65 := rfl
  have hZ : 'Z'.val.toNat = 90 := rfl
  have ha : 'a'.val.toNat = 97 := rfl
  have hz : 'z'.val.toNat = 122 := rfl
  split
  · next _ =>
    have hsum : (c.val + ('a'.val - 'A'.val)).toNat = c.val.toNat + 32 := by
      have hgap : ('a'.val - 'A'.val).toNat = 32 := rfl
      rw [UInt32.toNat_add]
      omega
    left
    dsimp only
    rw [hsum]
    omega
  · omega

theorem toLower_eq_of_isSlugChar (h : (c.isLower || c.isDigit) = true) :
    c.isAlphanum = true ∧ c.toLower = c ∧ c ≠ '-' := by
  simp only [Char.isAlphanum, Char.isAlpha, Char.isUpper, Char.isLower, Char.isDigit,
    Char.toLower] at h ⊢
  refine ⟨?_, ?_, ?_⟩
  · grind
  · split <;> grind [UInt32.le_iff_toNat_le]
  · rintro rfl
    simp at h

/-- Two dashes do not follow one another. -/
def NoDashes (a b : Char) : Prop := ¬ (a = '-' ∧ b = '-')

structure IsSlug (s : List Char) : Prop where
  chars : ∀ c ∈ s, isSlugChar c = true
  chain : s.IsChain NoDashes
  starts : s.head? ≠ some '-'
  ends : s.getLast? ≠ some '-'

theorem slugFrom_chain (dashed : Bool) (s : List Char) :
    (∀ c ∈ slugFrom dashed s, isSlugChar c = true) ∧ (slugFrom dashed s).IsChain NoDashes ∧
        (dashed = true → (slugFrom dashed s).head? ≠ some '-') := by
  induction s generalizing dashed with
  | nil => exact ⟨fun c h => absurd h not_mem_nil, .nil, fun _ h => nomatch h⟩
  | cons _ _ ih =>
    unfold slugFrom
    split
    · next halnum =>
      obtain ⟨hchars, hchain, -⟩ := ih false
      have hlower := isSlugChar_toLower halnum
      have hdash := (toLower_eq_of_isSlugChar hlower).2.2
      refine ⟨?_, hchain.cons fun y _ h => hdash h.1, fun _ h => hdash (Option.some.inj h)⟩
      intro c hc
      rcases mem_cons.mp hc with rfl | hc
      · unfold isSlugChar
        rw [hlower, Bool.true_or]
      · exact hchars c hc
    · split
      · obtain ⟨hchars, hchain, hhead⟩ := ih true
        exact ⟨hchars, hchain, fun _ => hhead rfl⟩
      · next hdashed =>
        obtain ⟨hchars, hchain, hhead⟩ := ih true
        refine ⟨?_, hchain.cons ?_, fun h => absurd h hdashed⟩
        · intro c hc
          rcases mem_cons.mp hc with rfl | hc
          · rfl
          · exact hchars c hc
        · rintro y hy ⟨-, rfl⟩
          exact hhead rfl hy

theorem trimEndMatches_isPrefix (c : Char) (text : List Char) : trimEndMatches c text <+: text := by
  unfold trimEndMatches
  rw [← reverse_suffix, reverse_reverse]
  exact dropWhile_suffix _

theorem head?_dropWhile_ne (c : Char) (text : List Char) :
    (text.dropWhile fun x => x = c).head? ≠ some c := by
  intro h
  have hnot := head?_dropWhile_not (fun x => decide (x = c)) text
  rw [h] at hnot
  simp at hnot

theorem getLast?_trimEndMatches_ne (c : Char) (text : List Char) :
    (trimEndMatches c text).getLast? ≠ some c := by
  unfold trimEndMatches
  rw [getLast?_reverse]
  exact head?_dropWhile_ne c text.reverse

theorem head?_ne_of_start {front text : List Char} (hstart : front <+: text)
    (h : text.head? ≠ some c) : front.head? ≠ some c := by
  obtain ⟨back, rfl⟩ := hstart
  cases front with
  | nil => exact fun h => nomatch h
  | cons => exact h

theorem isSlug_of_start {s front : List Char} (hs : IsSlug s) (hstart : front <+: s) :
    IsSlug (trimEndMatches '-' front) where
  chars c hc := hs.chars c (((trimEndMatches_isPrefix '-' front).trans hstart).subset hc)
  chain := hs.chain.prefix ((trimEndMatches_isPrefix '-' front).trans hstart)
  starts := head?_ne_of_start ((trimEndMatches_isPrefix '-' front).trans hstart) hs.starts
  ends := getLast?_trimEndMatches_ne '-' front

theorem isSlug_slug (s : List Char) : IsSlug (slug s) := by
  obtain ⟨hchars, hchain, -⟩ := slugFrom_chain false s
  have hpart : slug s <:+: slugFrom false s :=
    ((trimEndMatches_isPrefix '-' _).isInfix).trans (dropWhile_suffix _).isInfix
  exact
    { chars := fun c hc => hchars c (hpart.subset hc)
      chain := hchain.infix hpart
      starts := head?_ne_of_start (trimEndMatches_isPrefix '-' _) (head?_dropWhile_ne '-' _)
      ends := getLast?_trimEndMatches_ne '-' _ }

theorem slugFrom_eq_self {dashed : Bool} {s : List Char} (hchars : ∀ c ∈ s, isSlugChar c = true)
    (hchain : s.IsChain NoDashes) (hhead : dashed = true → s.head? ≠ some '-') :
    slugFrom dashed s = s := by
  induction s generalizing dashed with
  | nil => rfl
  | cons x rest ih =>
    obtain ⟨hx, hrest⟩ := isChain_cons.mp hchain
    have hcharsRest : ∀ c ∈ rest, isSlugChar c = true :=
      fun c hc => hchars c (mem_cons_of_mem _ hc)
    have hxchar := hchars x mem_cons_self
    unfold slugFrom
    by_cases hdash : x = '-'
    · subst hdash
      have hnot : dashed = false := by
        cases dashed with
        | false => rfl
        | true => exact absurd rfl (hhead rfl)
      have htail : slugFrom true rest = rest := by
        apply ih hcharsRest hrest
        intro _ hrestHead
        exact hx '-' hrestHead ⟨rfl, rfl⟩
      rw [if_neg (by decide), hnot, if_neg Bool.false_ne_true, htail]
    · unfold isSlugChar at hxchar
      rw [decide_eq_false hdash, Bool.or_false] at hxchar
      obtain ⟨halnum, hlower, -⟩ := toLower_eq_of_isSlugChar hxchar
      have htail : slugFrom false rest = rest :=
        ih hcharsRest hrest fun h => absurd h Bool.false_ne_true
      rw [if_pos halnum, hlower, htail]

theorem dropWhile_eq_self_of_head?_ne {text : List Char} (h : text.head? ≠ some c) :
    (text.dropWhile fun x => x = c) = text := by
  cases text with
  | nil => rfl
  | cons x =>
    have hx : x ≠ c := fun heq => h (heq ▸ rfl)
    exact dropWhile_cons_of_neg (by simpa using hx)

/-- A slug is its own slug. -/
theorem slug_eq_self {s : List Char} (h : IsSlug s) : slug s = s := by
  have hloop : slugFrom false s = s :=
    slugFrom_eq_self h.chars h.chain fun h => absurd h Bool.false_ne_true
  have hends : s.reverse.head? ≠ some '-' := by
    rw [head?_reverse]
    exact h.ends
  unfold slug trimMatches trimEndMatches
  rw [hloop, dropWhile_eq_self_of_head?_ne h.starts, dropWhile_eq_self_of_head?_ne hends,
    reverse_reverse]

end Slug

section Pattern

variable {env : Environment} {name : String}

theorem free_of_isDnsLabel {s : List Char} (h : isDnsLabel s = true) : patternMarks.Free s := by
  have hchars : ∀ c ∈ s, (c.isLower || c.isDigit || c = '-') = true := by
    unfold isDnsLabel at h
    simp only [Bool.and_eq_true, all_eq_true] at h
    exact h.1.1.2
  exact ⟨fun hmem => absurd (hchars _ hmem) (by decide),
    fun hmem => absurd (hchars _ hmem) (by decide)⟩

theorem free_slug (s : List Char) : patternMarks.Free (slug s) :=
  ⟨fun hmem => absurd ((isSlug_slug s).chars _ hmem) (by decide),
    fun hmem => absurd ((isSlug_slug s).chars _ hmem) (by decide)⟩

/-- The pattern of an environment is made of plain characters and its two placeholders,
and holds the project. -/
theorem exists_pieces_pattern (env : Environment) :
    ∃ pieces, Unbracketed '{' '}' pieces ∧ Piece.first ∈ pieces ∧
      env.namespacePattern.toList = patternMarks.spell pieces := by
  have hsample : slug "a-project".toList = 'a' :: "-project".toList := by
    decide
  have hfree := free_of_isDnsLabel env.givesNamespace
  unfold patternText at hfree
  rw [hsample] at hfree
  obtain ⟨pieces, hpieces, htext⟩ :=
    Brackets.exists_pieces (b := patternMarks) ⟨by decide, by decide⟩ (by decide) hfree
  have hholds := env.holdsProject
  rw [htext] at hholds
  exact ⟨pieces, hpieces, Brackets.first_mem_of_infix hpieces hholds, htext⟩

theorem slug_eq_of_patternText_eq {other : String}
    (h : patternText env.namespacePattern name env.name =
      patternText env.namespacePattern other env.name) :
    slug name.toList = slug other.toList := by
  obtain ⟨pieces, hpieces, hfirst, htext⟩ := exists_pieces_pattern env
  unfold patternText at h
  rw [htext, Brackets.fill_spell hpieces (free_slug _),
    Brackets.fill_spell hpieces (free_slug _)] at h
  exact render_injective hfirst h

theorem patternNamespace_eq_ok_iff {ns : String} :
    env.patternNamespace name = .ok ns ↔
      isDnsLabel (patternText env.namespacePattern name env.name) = true ∧
        ns.toList = patternText env.namespacePattern name env.name := by
  unfold Environment.patternNamespace namespaceFor
  dsimp only
  split
  · next hlabel =>
    constructor
    · rintro h
      obtain rfl := Except.ok.inj h
      exact ⟨hlabel, String.toList_ofList⟩
    · rintro ⟨-, h⟩
      rw [← h, String.ofList_toList]
  · next hlabel =>
    constructor
    · exact fun h => nomatch h
    · exact fun h => absurd h.1 hlabel

/-- Two names that the pattern gives one namespace have one slug. -/
theorem slug_eq_of_patternNamespace_eq {other ns : String} (h : env.patternNamespace name = .ok ns)
    (hother : env.patternNamespace other = .ok ns) : slug name.toList = slug other.toList := by
  rw [patternNamespace_eq_ok_iff] at h hother
  exact slug_eq_of_patternText_eq (h.2.symm.trans hother.2)

theorem patternNamespace_congr {other : String} (h : slug name.toList = slug other.toList) :
    (env.patternNamespace name).toOption = (env.patternNamespace other).toOption := by
  unfold Environment.patternNamespace namespaceFor patternText
  rw [h]
  dsimp only
  split <;> rfl

end Pattern
end Environments
end StudioWeb
