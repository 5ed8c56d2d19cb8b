import StudioWeb.Environments.DeployRequests

/-!
# What an environment takes from another

`promotion_gap` and `check_promoted` stand in front of every install, on a cluster and in
Constructor Research.  A release is known by its build; without one on both sides, by its
product, its chart and its images.
-/

namespace StudioWeb
namespace Environments

open Scheduler (Uuid)

/-- One release: the same build where both name one, or else the same product, chart and
images. -/
def SameRelease (p d : Deployment) : Prop :=
  (∃ build, p.build = some build ∧ d.build = some build) ∨
    (p.build = none ∨ d.build = none) ∧ SameContents p d
where
  /-- The same product, the same chart and the same images. -/
  SameContents (p d : Deployment) : Prop :=
    p.product = d.product ∧ p.chartRef = d.chartRef ∧ p.chartSha256 = d.chartSha256 ∧
      p.images = d.images

structure SucceededIn (project source : Uuid) (p : Deployment) : Prop where
  project : p.projectId = project
  environment : p.environmentId = source
  preview : p.preview = none
  action : p.action = .install
  state : p.state = .succeeded

section Gate

variable {reads : DeployReads} {env : Environment} {project source : Uuid}
variable {req : DeployRequest} {d p : Deployment}

theorem sameRelease_of_eq_true (h : p.sameRelease d = true) : SameRelease p d := by
  unfold Deployment.sameRelease at h
  unfold SameRelease SameRelease.SameContents
  split at h
  · next a b hp hd =>
    obtain rfl : a = b := by simpa using h
    exact .inl ⟨a, hp, hd⟩
  · next hneither =>
    right
    constructor
    · cases hp : p.build with
      | none => exact .inl rfl
      | some a =>
        cases hd : d.build with
        | none => exact .inr rfl
        | some b => exact (hneither a b hp hd).elim
    · simp only [Bool.and_eq_true, decide_eq_true_eq] at h
      exact ⟨h.1.1.1, h.1.1.2, h.1.2, h.2⟩

/-- What the gate lets through has succeeded where the environment takes its releases
from. -/
theorem exists_of_checkPromoted (hgate : reads.checkPromoted env d = .ok ())
    (hsource : env.promoteFrom = some source) :
    ∃ p ∈ reads.deployments d.projectId source,
      SucceededIn d.projectId source p ∧ SameRelease p d := by
  unfold DeployReads.checkPromoted at hgate
  rw [hsource] at hgate
  dsimp only at hgate
  split at hgate
  · next hgap =>
    unfold promotionGap at hgap
    rw [hsource, Option.bind_some] at hgap
    dsimp only at hgap
    split at hgap
    · next hpromoted =>
      obtain ⟨p, hp, hsame⟩ := List.any_eq_true.mp hpromoted
      simp only [Bool.and_eq_true, decide_eq_true_eq, Option.isNone_iff_eq_none] at hsame
      obtain ⟨⟨⟨⟨⟨henvironment, hproject⟩, hpreview⟩, haction⟩, hstate⟩, hsame⟩ := hsame
      exact ⟨p, hp, ⟨hproject, henvironment, hpreview, haction, hstate⟩,
        sameRelease_of_eq_true hsame⟩
    · cases hgap
  · cases hgate

end Gate

/-- **The promotion gate.**  An install that is no preview is taken only where the same
release has succeeded in the environment promoted from. -/
theorem promotion_gate {reads : DeployReads} {env : Environment} {project source : Uuid}
    {req : DeployRequest} {d : Deployment} (hrequest : reads.requestDeploy env project req = .ok d)
    (hinstall : d.action = .install) (hpreview : d.preview = none)
    (hsource : env.promoteFrom = some source) :
    ∃ p ∈ reads.deployments project source,
      SucceededIn project source p ∧ SameRelease p d := by
  obtain ⟨hproject, hgate⟩ := gate_of_requestDeploy hrequest hinstall hpreview
  have hexists := exists_of_checkPromoted hgate hsource
  rw [hproject] at hexists
  exact hexists

/-- An environment that takes what runs in `stage`. -/
private def prod : Environment where
  id := ⟨"prod"⟩
  name := "prod"
  kind := .kubernetes
  connectionId := ⟨"cluster"⟩
  research := none
  registry := "ghcr.io/acme"
  registryConnectionId := some ⟨"registry"⟩
  namespacePattern := DEFAULT_NAMESPACE_PATTERN
  isProtected := false
  promoteFrom := some ⟨"stage"⟩
  projects := none
  projectId := none
  previews := none
  buildNamespace := none
  namespaces := none
  named := by decide
  holdsProject := default_holdsProject
  givesNamespace := by decide

/-- What ran in `stage`. -/
private def ranInStage : Deployment :=
  { shopInstall "d1" with
    environmentId := ⟨"stage"⟩
    build := some "ci-000042"
    state := .succeeded }

private def stageReads : DeployReads where
  projectName := .ok "Shop"
  slug := .ok "shop"
  assignment := .ok none
  admitted := .ok []
  environmentName := fun _ => none
  list := ⟨[ranInStage]⟩
  runs := []
  answered := fun _ => true
  builds := none
  images := none
  checkedChart := fun _ => .error (.invalid "the chart is not base64")
  repository := .ok ()
  savedProductFile := .ok "products/shop/product.gdl"
  expiresAt := fun _ => ""
  requestedAt := "2026-01-02T00:00:00Z"
  person := ⟨"ann", some "Ann"⟩
  id := ⟨"d2"⟩
  goesOn := fun _ => .ok []

private def namesBuild (chart version : String) : DeployRequest where
  environmentId := ⟨"prod"⟩
  profile := "default"
  product := "shop"
  commit := none
  lockHash := none
  build := some "ci-000042"
  images := []
  chart := none
  chartRef := some chart
  chartVersion := some version
  action := .install
  redeployOf := none
  preview := none

private def accepted (chart version : String) : Deployment :=
  { asked stageReads prod ⟨"shop"⟩ "Shop" (namesBuild chart version) "shop" "shop-prod" with
    build := some "ci-000042"
    chartRef := some ⟨chart, version, none⟩ }

/-- What ran in `stage` is taken. -/
theorem promotion_gate_same_build :
    ∃ p ∈ stageReads.deployments ⟨"shop"⟩ ⟨"stage"⟩, SucceededIn ⟨"shop"⟩ ⟨"stage"⟩ p ∧
      SameRelease p (accepted "oci://ghcr.io/acme/shop/charts/shop" "0.1.0") := by
  have hrequest : stageReads.requestDeploy prod ⟨"shop"⟩
      (namesBuild "oci://ghcr.io/acme/shop/charts/shop" "0.1.0") =
        .ok (accepted "oci://ghcr.io/acme/shop/charts/shop" "0.1.0") := by
    decide
  exact promotion_gate hrequest rfl rfl rfl

/-- A request that names a build that ran there may bring another chart. -/
theorem other_chart_of_a_promoted_build :
    ¬ ∀ reads env project source req d, DeployReads.requestDeploy reads env project req = .ok d →
      d.action = .install → d.preview = none → env.promoteFrom = some source →
        ∃ p ∈ reads.deployments project source,
          SucceededIn project source p ∧ SameRelease.SameContents p d := by
  intro hclaim
  obtain ⟨p, hp, -, -, hchart, -⟩ := hclaim stageReads prod ⟨"shop"⟩ ⟨"stage"⟩
    (namesBuild "oci://ghcr.io/acme/shop/charts/shop" "9.9.9")
    (accepted "oci://ghcr.io/acme/shop/charts/shop" "9.9.9") (by decide) rfl rfl rfl
  obtain rfl : p = ranInStage := by
    have hlist : stageReads.deployments ⟨"shop"⟩ ⟨"stage"⟩ = [ranInStage] := by decide
    rw [hlist] at hp
    exact List.mem_singleton.mp hp
  exact absurd hchart (by decide)
end Environments
end StudioWeb
