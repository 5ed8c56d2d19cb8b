import StudioWeb.Environments.DeployRequests

/-!
# One project, one place

A build, a deploy and the check against another environment of the same cluster each find
out where a project goes.  On a cluster the first two ask for its place; in Constructor
Research a build asks for the pattern's namespace of its slug and a deploy for that of its
name, and the check does so everywhere.
-/

namespace StudioWeb
namespace Environments

open Scheduler (Uuid)
open UserProfile (isHyphenated)

/-- A project that has a slug, whatever it was called then and is called now, and what is
recorded of it in an environment. -/
structure PlacedProject where
  id : Uuid
  name : String
  slug : String
  madeFrom : String
  assignment : Option Assignment
  hyphenated : isHyphenated id.text = true
  given : slug ∈ slugTries id madeFrom

namespace PlacedProject

theorem isSlug_slug (p : PlacedProject) : IsSlug p.slug.toList :=
  isSlug_of_mem_slugTries p.hyphenated p.given

end PlacedProject

def buildNamespace (env : Environment) (p : PlacedProject) : Option String :=
  match env.kind with
  | .research => (env.patternNamespace p.slug).toOption
  | .kubernetes => (placeOf env p.slug p.assignment).toOption.map Place.namespace

def deployNamespace (env : Environment) (p : PlacedProject) : Option String :=
  match env.kind with
  | .research => (env.patternNamespace p.name).toOption
  | .kubernetes => (placeOf env p.slug p.assignment).toOption.map Place.namespace

/-- What `namespace_clash` compares, of each environment on a cluster. -/
def clashNamespace (env : Environment) (p : PlacedProject) : Option String :=
  (env.patternNamespace p.name).toOption

/-- The namespace is the pattern's: the project is assigned none there. -/
def fromPattern (env : Environment) (p : PlacedProject) : Bool :=
  env.kind = .research || (assignedHere env p.assignment).isNone

def GetsFromPattern (env : Environment) (p : PlacedProject) (ns : String) : Prop :=
  fromPattern env p = true ∧ (buildNamespace env p = some ns ∨ deployNamespace env p = some ns)

/-- One place: for a build, for a deploy and for the check, and no other project's. -/
structure OnePlace (env : Environment) (projects : List PlacedProject) : Prop where
  built : ∀ p ∈ projects, deployNamespace env p = buildNamespace env p
  compared : env.kind = .kubernetes → ∀ p ∈ projects, clashNamespace env p = deployNamespace env p
  apart : ∀ p ∈ projects, ∀ q ∈ projects, p.slug ≠ q.slug →
    ∀ ns, GetsFromPattern env p ns → ¬ GetsFromPattern env q ns

/-- The pattern gives a name a namespace. -/
def fits (env : Environment) (name : String) : Bool :=
  isDnsLabel (patternText env.namespacePattern name env.name)

def buildFits (env : Environment) (slug : String) : Bool :=
  isDnsLabel (patternText (env.buildNamespace.getD DEFAULT_BUILD_NAMESPACE_PATTERN) slug env.name)

def hasPlace (env : Environment) (slug : String) : Bool :=
  fits env slug && (env.kind = .research || (env.namespaces.isNone && buildFits env slug))

/-- The project's name still says where it is: an assigned namespace is the one the
pattern gives the name, and otherwise the name has the slug that was recorded. -/
def NameKeepsPlace (env : Environment) (p : PlacedProject) : Prop :=
  if fromPattern env p then
    if hasPlace env p.slug then
      slug p.name.toList = p.slug.toList
    else
      fits env p.name = false
  else
    fits env p.name = true ∧ (assignedHere env p.assignment).map Assignment.namespace =
        some (String.ofList (patternText env.namespacePattern p.name env.name))

section Where

variable {env : Environment} {p q : PlacedProject} {projects : List PlacedProject}

theorem toOption_patternNamespace (env : Environment) (name : String) :
    (env.patternNamespace name).toOption =
      if fits env name then
        some (String.ofList (patternText env.namespacePattern name env.name))
      else
        none := by
  unfold Environment.patternNamespace namespaceFor fits
  dsimp only
  split <;> rfl

theorem toOption_buildNamespaceFor (env : Environment) (slug : String) :
    (env.buildNamespaceFor slug).toOption.isSome = buildFits env slug := by
  unfold Environment.buildNamespaceFor namespaceFor buildFits
  dsimp only
  split
  · next _ h =>
    split at h
    · next hfits =>
      rw [hfits]
      rfl
    · cases h
  · next _ h =>
    split at h
    · cases h
    · next hfits => simp [hfits, Except.toOption]

theorem namespace_placeOf (hkind : env.kind = .kubernetes) (slug : String)
    (assignment : Option Assignment) :
    (placeOf env slug assignment).toOption.map Place.namespace =
      match assignedHere env assignment with
      | some a => some a.namespace
      | none => if hasPlace env slug then (env.patternNamespace slug).toOption else none := by
  unfold placeOf hasPlace
  dsimp only
  cases assignedHere env assignment with
  | some => rfl
  | none =>
    have hbuild := toOption_buildNamespaceFor env slug
    have hpattern := toOption_patternNamespace env slug
    have hcluster : decide (env.kind = .research) = false := by rw [hkind]; rfl
    rw [hcluster, Bool.false_or]
    cases hgiven : env.namespaces with
    | some => simp [Except.toOption]
    | none =>
      cases hns : env.patternNamespace slug with
      | error =>
        rw [hns] at hpattern
        simp [Except.toOption]
      | ok =>
        rw [hns] at hpattern
        cases hb : env.buildNamespaceFor slug with
        | error =>
          rw [hb] at hbuild
          simp [Except.toOption] at hbuild ⊢
          simp [← hbuild]
        | ok =>
          rw [hb] at hbuild
          have hfits : fits env slug = true := by
            by_contra hnot
            rw [if_neg hnot] at hpattern
            cases hpattern
          simp [Except.toOption] at hbuild ⊢
          simp [hfits, ← hbuild]

theorem toOption_patternNamespace_eq_none_iff (env : Environment) (name : String) :
    (env.patternNamespace name).toOption = none ↔ fits env name = false := by
  rw [toOption_patternNamespace]
  cases fits env name <;> simp

/-- The pattern gives a name what it gives a slug where the name has that slug, or where
it gives neither anything. -/
theorem patternNamespace_eq_slug_iff (env : Environment) (p : PlacedProject) :
    (env.patternNamespace p.name).toOption = (env.patternNamespace p.slug).toOption ↔
      if fits env p.slug then slug p.name.toList = p.slug.toList else fits env p.name = false := by
  split
  · next hfits =>
    rw [← slug_eq_self p.isSlug_slug]
    constructor
    · intro heq
      rw [toOption_patternNamespace, toOption_patternNamespace, if_pos hfits] at heq
      split at heq
      · exact slug_eq_of_patternText_eq (String.ofList_injective (Option.some.inj heq))
      · cases heq
    · rw [slug_eq_self p.isSlug_slug]
      intro hslug
      exact patternNamespace_congr (hslug.trans (slug_eq_self p.isSlug_slug).symm)
  · next hnot =>
    rw [(toOption_patternNamespace_eq_none_iff env p.slug).mpr (by simpa using hnot)]
    exact toOption_patternNamespace_eq_none_iff env p.name

theorem agree_iff (env : Environment) (p : PlacedProject) :
    (deployNamespace env p = buildNamespace env p ∧
        (env.kind = .kubernetes → clashNamespace env p = deployNamespace env p)) ↔
      NameKeepsPlace env p := by
  have hslug := patternNamespace_eq_slug_iff env p
  unfold NameKeepsPlace fromPattern deployNamespace buildNamespace clashNamespace
  cases hkind : env.kind with
  | research =>
    have hplace : hasPlace env p.slug = fits env p.slug := by
      simp [hasPlace, hkind]
    dsimp only
    rw [decide_eq_true rfl, Bool.true_or, if_pos rfl, hplace, ← hslug]
    exact ⟨fun h => h.1, fun h => ⟨h, fun hother => nomatch hother⟩⟩
  | kubernetes =>
    have hplace := namespace_placeOf hkind p.slug p.assignment
    dsimp only
    rw [hplace, decide_eq_false (fun h => nomatch h), Bool.false_or]
    cases hassigned : assignedHere env p.assignment with
    | some =>
      have htext := toOption_patternNamespace env p.name
      rw [Option.isNone_some, if_neg Bool.false_ne_true, htext]
      cases hfits : fits env p.name with
      | false => simp
      | true => simp [eq_comm]
    | none =>
      rw [Option.isNone_none, if_pos rfl]
      cases hhas : hasPlace env p.slug with
      | false =>
        simp [toOption_patternNamespace_eq_none_iff]
      | true =>
        have hfits : fits env p.slug = true := by
          unfold hasPlace at hhas
          exact (Bool.and_eq_true_iff.mp hhas).1
        rw [if_pos hfits] at hslug
        simp [hslug]

theorem slug_of_getsFromPattern {ns : String}
    (hbuilt : deployNamespace env p = buildNamespace env p) (h : GetsFromPattern env p ns) :
    env.patternNamespace p.slug = .ok ns := by
  obtain ⟨hfrom, hgets⟩ := h
  rw [hbuilt, or_self] at hgets
  have hok : (env.patternNamespace p.slug).toOption = some ns := by
    unfold buildNamespace at hgets
    cases hkind : env.kind with
    | research =>
      rw [hkind] at hgets
      exact hgets
    | kubernetes =>
      rw [hkind] at hgets
      dsimp only at hgets
      unfold fromPattern at hfrom
      rw [hkind, decide_eq_false (fun h => nomatch h), Bool.false_or,
        Option.isNone_iff_eq_none] at hfrom
      rw [namespace_placeOf hkind, hfrom] at hgets
      dsimp only at hgets
      split at hgets
      · exact hgets
      · cases hgets
  cases hns : env.patternNamespace p.slug with
  | error =>
    rw [hns] at hok
    cases hok
  | ok =>
    rw [hns] at hok
    exact congrArg Except.ok (Option.some.inj hok)

end Where

/-- **One place.**  A build, a deploy and the check of every project agree, and different
slugs are apart, just where every project's name keeps its place. -/
theorem one_place_iff (env : Environment) (projects : List PlacedProject) :
    OnePlace env projects ↔ ∀ p ∈ projects, NameKeepsPlace env p := by
  constructor
  · intro h p hp
    exact (agree_iff env p).mp ⟨h.built p hp, fun hkind => h.compared hkind p hp⟩
  · intro h
    have hagree := fun p hp => (agree_iff env p).mpr (h p hp)
    refine ⟨fun p hp => (hagree p hp).1, fun hkind p hp => (hagree p hp).2 hkind, ?_⟩
    intro p hp q hq hne ns hpns hqns
    have hpslug := slug_of_getsFromPattern (hagree p hp).1 hpns
    have hqslug := slug_of_getsFromPattern (hagree q hq).1 hqns
    have hslug := slug_eq_of_patternNamespace_eq hpslug hqslug
    rw [slug_eq_self p.isSlug_slug, slug_eq_self q.isSlug_slug] at hslug
    exact hne (String.toList_injective hslug)

/-- An environment in Constructor Research. -/
private def desk : Environment where
  id := ⟨"desk"⟩
  name := "dev"
  kind := .research
  connectionId := ⟨"research"⟩
  research := some ⟨"acme", none⟩
  registry := ""
  registryConnectionId := none
  namespacePattern := DEFAULT_NAMESPACE_PATTERN
  isProtected := false
  promoteFrom := none
  projects := none
  projectId := none
  previews := none
  buildNamespace := none
  namespaces := none
  named := .refl true
  holdsProject := default_holdsProject
  givesNamespace := .refl true

/-- The second project called `Shop`. -/
private def secondShop : PlacedProject where
  id := ⟨"00000000-0000-0000-0000-000000000002"⟩
  name := "Shop"
  slug := "shop-2"
  madeFrom := "Shop"
  assignment := none
  hyphenated := by decide
  given := by decide

/-- The second project of one name is built for a place of its own and deployed over the
first. -/
theorem deployed_over_a_namesake : ¬ ∀ env projects, OnePlace env projects := by
  intro hclaim
  have hbuilt := (hclaim desk [secondShop]).built secondShop List.mem_cons_self
  exact absurd hbuilt (by decide)
end Environments
end StudioWeb
