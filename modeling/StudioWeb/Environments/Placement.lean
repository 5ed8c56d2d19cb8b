import Mathlib.Data.List.TakeWhile
import StudioWeb.Environments.Environment
import StudioWeb.UserProfile.AliasPolicy

/-!
# A project's slug, and its place in an environment

The slugs that `Records::slug` of `environments/records.rs` tries for a project, and
`place_of` of `environments/placement.rs`.
-/

namespace StudioWeb
namespace Environments

open List
open Scheduler (Uuid)
open UserProfile (isHyphenated isLowerHex)

def simple (id : Uuid) : List Char := (id.text.toList.splitOn '-').flatten

/-- What a slug is made of: the name's, with room for a suffix. -/
def slugBase (name : String) : List Char :=
  let base := slug name.toList
  if base = [] then "project".toList else trimEndMatches '-' (base.take 30)

def suffixed (base suffix : List Char) : List Char := base ++ '-' :: suffix

def slugTries (project : Uuid) (name : String) : List String :=
  let base := slugBase name
  let suffixes := ['2', '3', '4', '5', '6', '7', '8', '9'].map (fun n => [n]) ++
    [(simple project).take 8]
  (base :: suffixes.map (suffixed base)).map String.ofList

section Slugs

variable {project : Uuid} {name s : String}

theorem isSlug_slugBase (name : String) : IsSlug (slugBase name) := by
  unfold slugBase
  dsimp only
  split
  · have hself : IsSlug (slug "project".toList) := isSlug_slug _
    exact hself
  · exact isSlug_of_start (isSlug_slug _) (List.take_prefix _ _)

theorem slugBase_ne_nil (name : String) : slugBase name ≠ [] := by
  unfold slugBase
  dsimp only
  split
  · decide
  · next hne =>
    have hslug := isSlug_slug name.toList
    cases hs : slug name.toList with
    | nil => exact absurd hs hne
    | cons x =>
      rw [hs] at hslug
      intro hnil
      unfold trimEndMatches at hnil
      rw [reverse_eq_nil_iff, dropWhile_eq_nil_iff] at hnil
      have hx := hnil x (mem_reverse.mpr mem_cons_self)
      rw [decide_eq_true_eq] at hx
      exact hslug.starts (congrArg some hx)

theorem isSlugChar_of_isLowerHex {c : Char} (h : isLowerHex c = true) :
    isSlugChar c = true ∧ c ≠ '-' := by
  constructor
  · unfold isLowerHex at h
    unfold isSlugChar
    simp only [Char.isDigit, Char.isLower] at h ⊢
    grind [Char.le_def]
  · rintro rfl
    exact absurd h (by decide)

theorem isSlug_suffixed {base suffix : List Char} (hbase : IsSlug base) (hne : base ≠ [])
    (hsuffix : suffix ≠ []) (hchars : ∀ c ∈ suffix, isLowerHex c = true) :
    IsSlug (suffixed base suffix) := by
  have hslug : ∀ c ∈ suffix, isSlugChar c = true ∧ c ≠ '-' := by
    intro c hc
    exact isSlugChar_of_isLowerHex (hchars c hc)
  have hchain : suffix.IsChain NoDashes := by
    apply List.Pairwise.isChain
    apply pairwise_of_forall_mem_list
    intro a ha b _ h
    exact (hslug a ha).2 h.1
  have hdash : ('-' :: suffix).IsChain NoDashes := by
    refine hchain.cons ?_
    intro y hy h
    exact (hslug y (mem_of_mem_head? hy)).2 h.2
  have hlast : (suffixed base suffix).getLast? = suffix.getLast? := by
    unfold suffixed
    rw [getLast?_append_of_ne_nil _ (cons_ne_nil _ _)]
    obtain ⟨x, rest, rfl⟩ := exists_cons_of_ne_nil hsuffix
    rfl
  refine ⟨?_, hbase.chain.append hdash ?_, ?_, ?_⟩
  · intro c hc
    rcases mem_append.mp hc with hc | hc
    · exact hbase.chars c hc
    · rcases mem_cons.mp hc with rfl | hc
      · rfl
      · exact (hslug c hc).1
  · rintro x hx y - ⟨rfl, -⟩
    exact hbase.ends hx
  · obtain ⟨x, rest, rfl⟩ := exists_cons_of_ne_nil hne
    exact hbase.starts
  · rw [hlast]
    intro h
    exact (hslug '-' (mem_of_mem_getLast? h)).2 rfl

/-- Every slug that may be given has the form of one. -/
theorem isSlug_of_mem_slugTries (hproject : isHyphenated project.text = true)
    (h : s ∈ slugTries project name) : IsSlug s.toList := by
  have hhex : (simple project).length = 32 ∧ ∀ c ∈ simple project, isLowerHex c = true := by
    unfold isHyphenated at hproject
    simp only [Bool.and_eq_true, beq_iff_eq, all_eq_true] at hproject
    refine ⟨?_, hproject.2⟩
    unfold simple
    rw [length_flatten, hproject.1]
    rfl
  have hdigits : ∀ n ∈ ['2', '3', '4', '5', '6', '7', '8', '9'], isLowerHex n = true :=
    all_eq_true.mp rfl
  have hsuffix : ∀ suffix ∈ ['2', '3', '4', '5', '6', '7', '8', '9'].map (fun n => [n]) ++
      [(simple project).take 8], suffix ≠ [] ∧ ∀ c ∈ suffix, isLowerHex c = true := by
    intro suffix hmem
    rcases mem_append.mp hmem with hmem | hmem
    · obtain ⟨n, hn, rfl⟩ := mem_map.mp hmem
      refine ⟨cons_ne_nil n [], fun c hc => ?_⟩
      obtain rfl := mem_singleton.mp hc
      exact hdigits c hn
    · obtain rfl := mem_singleton.mp hmem
      refine ⟨?_, fun c hc => hhex.2 c (mem_of_mem_take hc)⟩
      intro hnil
      have hlen := congrArg List.length hnil
      rw [length_take, hhex.1] at hlen
      cases hlen
  unfold slugTries at h
  obtain ⟨text, htext, rfl⟩ := mem_map.mp h
  rw [String.toList_ofList]
  rcases mem_cons.mp htext with rfl | htext
  · exact isSlug_slugBase name
  · obtain ⟨suffix, hmem, rfl⟩ := mem_map.mp htext
    obtain ⟨hne, hchars⟩ := hsuffix suffix hmem
    exact isSlug_suffixed (isSlug_slugBase name) (slugBase_ne_nil name) hne hchars

end Slugs

structure Assignment where
  projectId : Uuid
  environmentId : Uuid
  clusterConnectionId : Uuid
  «namespace» : String
  buildNamespace : String
deriving DecidableEq

structure Place where
  slug : String
  «namespace» : String
  buildNamespace : String
  registryPrefix : String
  recorded : Bool
deriving DecidableEq

def projectPrefix (registry slug : String) : String :=
  String.ofList (trimEndMatches '/' registry.toList) ++ "/" ++ slug

/-- `Invalid` as text. -/
def Invalid.text (e : Invalid) : String := e.field ++ ": " ++ e.reason

def assignedHere (env : Environment) (assignment : Option Assignment) : Option Assignment :=
  assignment.filter fun a => a.clusterConnectionId = env.connectionId

def placeOf (env : Environment) (slug : String) (assignment : Option Assignment) :
    Except (String × String) Place :=
  let registryPrefix := if env.registry = "" then "" else projectPrefix env.registry slug
  match assignedHere env assignment with
  | some a => .ok ⟨slug, a.namespace, a.buildNamespace, registryPrefix, true⟩
  | none =>
    match env.namespaces with
    | some given =>
      let names := ", ".intercalate given
      .error ("NAMESPACE_NOT_ASSIGNED",
        s!"environment '{env.name}' runs on a cluster that gives Studio its namespaces " ++
          s!"({names}) rather than letting it make them: an organization " ++
          "administrator assigns this project one of them, in Infrastructure")
    | none =>
      match env.patternNamespace slug with
      | .error e => .error ("NAMESPACE_PATTERN_INVALID", e.text)
      | .ok ns =>
        match env.buildNamespaceFor slug with
        | .error e => .error ("NAMESPACE_PATTERN_INVALID", e.text)
        | .ok buildNs => .ok ⟨slug, ns, buildNs, registryPrefix, false⟩

end Environments
end StudioWeb
