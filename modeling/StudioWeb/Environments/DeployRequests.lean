import StudioWeb.Environments.DeployCalls
import StudioWeb.Environments.Images
import StudioWeb.Environments.Placement

/-!
# What a deploy request becomes

`request_deploy` of `environments/service.rs` and `request_research_deploy`, up to what
they hand to `submit`: the release a request names in each of its ways, the checks of its
parts, and the promotion gate.

What other gears answer is in `DeployReads`: the name and the slug of the project, its
builds and its repository, and whatever is asked once the gate is passed.
-/

namespace StudioWeb
namespace Environments

open Scheduler (Uuid trimmedNonempty)

structure PreviewAsk where
  name : Option String
  ttlHours : Option Nat
deriving DecidableEq

structure DeployRequest where
  environmentId : Uuid
  profile : String
  product : String
  commit : Option String
  lockHash : Option String
  build : Option String
  images : List DeployImage
  chart : Option String
  chartRef : Option String
  chartVersion : Option String
  action : DeploymentAction
  redeployOf : Option Uuid
  preview : Option PreviewAsk
deriving DecidableEq

structure BuildRecord where
  buildId : String
  ranIn : Option String
  status : String
  product : Option String
  profile : Option String
  commit : Option String
  lockHash : Option String
  images : List DeployImage
  chartRef : Option String
  chartVersion : Option String
deriving DecidableEq

structure DeployReads where
  projectName : Except Refusal String
  slug : Except Refusal String
  assignment : Except Refusal (Option Assignment)
  admitted : Except Refusal (List Environment)
  environmentName : Uuid → Option String
  list : DeploymentList
  runs : List DeployRun
  answered : Uuid → Bool
  builds : Option (String → Except String (Option BuildRecord))
  images : Option (List ImageRecord)
  checkedChart : String → Except Refusal String
  repository : Except Refusal Unit
  savedProductFile : Except Refusal String
  expiresAt : Nat → String
  requestedAt : String
  person : Person
  id : Uuid
  goesOn : Deployment → Except Refusal (List String)

def trimmed (text : String) : String := String.ofList (Rust.trim text.toList)

/-- `?` on what `model` refuses. -/
def refused {α : Type} : Except Invalid α → Except Refusal α
  | .ok a => .ok a
  | .error e => .error (.invalid e.text)

def checkHash (field : String) (v : Option String) : Except Refusal (Option String) :=
  match trimmedNonempty v with
  | none => .ok none
  | some v =>
    if 7 ≤ v.toList.length && v.toList.length ≤ 64 && v.toList.all Char.isHexDigit then
      .ok (some v)
    else
      .error (.invalid s!"{field} '{v}' is not a hex hash")

def checkBuild (v : Option String) : Except Refusal (Option String) :=
  match trimmedNonempty v with
  | none => .ok none
  | some v =>
    if 8 ≤ v.toList.length && v.toList.length ≤ 64 &&
        v.toList.all (fun c => c.isAlphanum || c = '-') then
      .ok (some v)
    else
      .error (.invalid s!"build '{v}' is not a build id")

def releaseName (product : String) : Except Refusal String :=
  let product := trimmed product
  if !isDnsLabel product.toList || 53 < product.toList.length then
    .error (.invalid s!"'{product}' cannot be a release name")
  else
    .ok product

def isImageChar (c : Char) : Bool := c.isAlphanum || c ∈ ['.', '-', '_', '/', ':', '@']

/-- One turn of `check_images`. -/
def checkImage (i : DeployImage) : Except Invalid Unit :=
  let app := i.app.toList
  let image := i.image.toList
  if app = [] || !app.all (fun c => c.isAlphanum || c = '-' || c = '_') then
    .error ⟨"images", s!"'{i.app}' is not an application"⟩
  else if image = [] || decide ("://".toList <:+: image) || !image.all isImageChar then
    .error ⟨"images", s!"'{i.image}' is not an image"⟩
  else
    .ok ()

def checkImages : List DeployImage → Except Invalid Unit
  | [] => .ok ()
  | i :: rest => do
    checkImage i
    checkImages rest

def isUnder (reference projectPrefix : String) : Bool :=
  let bare := (Rust.stripPrefix "oci://".toList reference.toList).getD reference.toList
  (Rust.stripPrefix projectPrefix.toList bare).any fun rest => rest.head? = some '/'

def projectImage (env : Environment) (projectPrefix image : String) : Except Invalid String :=
  let text := image.toList
  let host := text.takeWhile fun c => c ≠ '/'
  if env.registry = "" || isUnder image projectPrefix then
    .ok image
  else if '/' ∈ text && ('.' ∈ host || ':' ∈ host || host = "localhost".toList) ||
      (env.registry ++ "/").toList.isPrefixOf text then
    .error ⟨"images",
      s!"'{image}' is not under the project's path {projectPrefix}: a deploy takes only " ++
        "images in the organization's registry -- import an external image into the " ++
        "project first (IMAGE_NOT_IN_PROJECT_PATH)"⟩
  else
    .ok (projectPrefix ++ "/" ++ image)

def checkChartRef (env : Environment) (reference version : String) : Except Invalid ChartRef :=
  let reference := trimmed reference
  let version := trimmed version
  if env.registryConnectionId.isNone || env.registry = "" then
    .error ⟨"chart_ref",
      s!"environment '{env.name}' has no registry connection: give it one, or send the " ++
        "chart itself"⟩
  else
    match Rust.stripPrefix "oci://".toList reference.toList with
    | none => .error ⟨"chart_ref", "a chart reference is oci://<registry>/<path>"⟩
    | some path =>
      if !(Rust.stripPrefix env.registry.toList path).any
          (fun rest => 1 < rest.length && rest.head? = some '/') then
        .error ⟨"chart_ref",
          s!"'{reference}' is not under the environment's registry {env.registry}"⟩
      else if !path.all (fun c =>
            c.isLower || c.isDigit || c ∈ ['.', '-', '_', '/', ':']) ||
          decide ("//".toList <:+: path) || decide ("..".toList <:+: path) ||
          path.getLast? = some '/' then
        .error ⟨"chart_ref", s!"'{reference}' is not a chart reference"⟩
      else if version.toList = [] || 128 < version.toList.length ||
          !version.toList.all (fun c => c.isAlphanum || c ∈ ['.', '-', '_', '+']) then
        .error ⟨"chart_version",
          "a published chart is deployed at a version (0.1.0, 0.1.0-sha.abc123)"⟩
      else
        .ok ⟨reference, version, none⟩

def checkChartInProject (chart : ChartRef) (projectPrefix : String) : Except Invalid Unit :=
  if isUnder chart.reference projectPrefix then
    .ok ()
  else
    .error ⟨"chart_ref", s!"'{chart.reference}' is not under the project's path {projectPrefix} " ++
        "(IMAGE_NOT_IN_PROJECT_PATH)"⟩

def MAX_PREVIEW_NAME : Nat := 20

def previewName (asked : Option String) (id : Uuid) : Except Invalid String :=
  match trimmedNonempty asked with
  | none => .ok (String.ofList ('p' :: (simple id).take 6))
  | some asked =>
    let name := asked.toList.map Char.toLower
    if !isDnsLabel name || MAX_PREVIEW_NAME < name.length then
      .error ⟨"preview_name", s!"a preview's name is lowercase letters, digits and '-', at most " ++
          s!"{MAX_PREVIEW_NAME} (pr-42, login-fix)"⟩
    else
      .ok (String.ofList name)

def previewNamespace (base name : String) : Except Invalid String :=
  let ns := s!"{base}-pv-{name}"
  if isDnsLabel ns.toList then
    .ok ns
  else
    .error ⟨"preview_name",
      s!"namespace '{ns}' would be longer than 63 characters: choose a shorter preview name"⟩

def previewHost (settings : PreviewSettings) (ns : String) : Option String :=
  if settings.domain = "" then none else some s!"{ns}.{settings.domain}"

def previewRefusal (settings : PreviewSettings) (history : List Deployment)
    (project env : Uuid) (name : String) : Option String :=
  let live := history.filter fun d =>
    d.projectId = project && d.environmentId = env && d.isLivePreview
  if live.any fun d => d.preview.any fun p => p.name = name then
    some (s!"the project already has a preview '{name}' here: remove it first, or name this " ++
      "one otherwise")
  else if settings.maxLive ≤ live.length then
    some (s!"the project keeps {live.length} previews here, as many as the environment " ++
      "allows: remove one first")
  else
    none

def namespaceClash (env : Environment) (admitted : List Environment) (projectName : String) :
    Option Environment :=
  (env.patternNamespace projectName).toOption.bind fun ns =>
    admitted.find? fun o =>
      o.id ≠ env.id && o.kind = .kubernetes && o.connectionId = env.connectionId &&
        (o.patternNamespace projectName).toOption = some ns

def promotionGap (env : Environment) (source : String) (d : Deployment)
    (history : List Deployment) : Option String :=
  env.promoteFrom.bind fun src =>
    let promoted := history.any fun p =>
      p.environmentId = src && p.projectId = d.projectId && p.preview.isNone &&
        p.action = .install && p.state = .succeeded && p.sameRelease d
    if promoted then
      none
    else
      some (s!"environment '{env.name}' takes only what runs in '{source}': deploy this " ++
        "release there first")

def asked (reads : DeployReads) (env : Environment) (project : Uuid) (projectName : String)
    (req : DeployRequest) (product ns : String) : Deployment where
  id := reads.id
  projectId := project
  projectName := projectName
  environmentId := env.id
  environmentName := env.name
  profile := trimmed req.profile
  product := product
  action := req.action
  redeployOf := req.redeployOf
  commit := none
  lockHash := none
  build := none
  images := []
  «namespace» := ns
  chartSha256 := ""
  chartRef := none
  state := .queued
  runId := none
  requestedBy := reads.person.id
  requestedByName := reads.person.name.getD ""
  requestedAt := reads.requestedAt
  decidedBy := none
  decidedByName := none
  decidedAt := none
  reason := none
  outcome := none
  pendingChart := none
  preview := none
  warnings := []

namespace DeployReads

variable (reads : DeployReads) (env : Environment) (project : Uuid)

/-- `EnvironmentService::deployments`, of the project in an environment. -/
def deployments (environment : Uuid) : List Deployment :=
  deploymentsRead reads.list reads.runs reads.answered (some project) (some environment)

def deployment (id : Uuid) : Except Refusal Deployment :=
  match reads.list.get id with
  | some d => .ok d
  | none =>
    .error (.notFound id.text s!"the organization has no deployment {id.text}")

def place : Except Refusal Place := do
  let slug ← reads.slug
  let assignment ← reads.assignment
  match placeOf env slug assignment with
  | .ok place => .ok place
  | .error (code, why) => .error (.precondition code why)

/-- A build of the project, as a request says its id and as it is looked up. -/
def buildRecord (id key : String) : Except Refusal BuildRecord :=
  match reads.builds with
  | none => .error (.unavailable "builds are not available in this deployment")
  | some builds =>
    match builds key with
    | .error why => .error (.internal why)
    | .ok none => .error (.notFound id s!"the project has no build {id}")
    | .ok (some b) => .ok b

def again (earlier : Uuid) (req : DeployRequest) : Except Refusal DeployRequest := do
  let d ← reads.deployment earlier
  if d.projectId ≠ project || d.action ≠ .install then
    .error (.invalid s!"deployment {earlier.text} is not an install of this project's product")
  else
    match d.chartRef with
    | none =>
      .error (.invalid
        (s!"deployment {earlier.text} carried its chart, which Studio does not keep: " ++
          "deploy that build again from where it was built"))
    | some chart =>
      .ok
        { environmentId := req.environmentId
          profile := d.profile
          product := d.product
          commit := d.commit
          lockHash := d.lockHash
          build := d.build
          images := d.images
          chart := none
          chartRef := some chart.reference
          chartVersion := some chart.version
          action := .install
          redeployOf := some earlier
          preview := req.preview }

def whatBuildPublished (build : String) (req : DeployRequest) :
    Except Refusal DeployRequest := do
  let b ← reads.buildRecord build (trimmed build)
  if b.status ≠ "passed" then
    .error (.precondition "BUILD_NOT_PASSED" s!"build {build} is {b.status}, not passed")
  else
    match b.chartRef, b.chartVersion with
    | some chartRef, some chartVersion =>
      .ok
        { environmentId := req.environmentId
          profile := if trimmed req.profile = "" then b.profile.getD "" else req.profile
          product := if trimmed req.product = "" then b.product.getD "" else req.product
          commit := b.commit
          lockHash := b.lockHash
          build := some b.buildId
          images := b.images
          chart := none
          chartRef := some chartRef
          chartVersion := some chartVersion
          action := .install
          redeployOf := none
          preview := req.preview }
    | _, _ =>
      .error (.precondition "BUILD_PUBLISHED_NO_CHART"
        (s!"build {build} published no chart: build it with the product's workflow, or " ++
          "publish from the IDE"))

/-- The release a request asks for: an earlier one again, what a build published, or what
the request says itself. -/
def released (req : DeployRequest) : Except Refusal DeployRequest :=
  match req.redeployOf with
  | some earlier => reads.again project earlier req
  | none =>
    match req.build with
    | some build =>
      if req.action = .install && req.chart.isNone && req.chartRef.isNone then
        reads.whatBuildPublished build req
      else
        .ok req
    | none => .ok req

def chartDigest (build : String) (chart : ChartRef) : Option String :=
  reads.images.bind fun images =>
    Environments.chartDigest
      ((images.filter fun r => r.kind = .chart && r.buildId = some build).take 50) chart

/-- `preview_for`, and the preview's namespace and host. -/
def previewFor (req : DeployRequest) (base : String) (ask : PreviewAsk) :
    Except Refusal (Preview × String) :=
  match env.previews with
  | none =>
    .error (.precondition "ENVIRONMENT_TAKES_NO_PREVIEWS"
      (s!"environment '{env.name}' takes no previews: an administrator turns them on in " ++
        "its settings"))
  | some settings =>
    if req.action ≠ .install then
      .error (.invalid "a preview installs a release: remove a preview rather than uninstall it")
    else do
      let name ← refused (previewName ask.name reads.id)
      let ns ← refused (previewNamespace base name)
      let ttl := ask.ttlHours.getD settings.ttlHours
      if ttl = 0 || settings.ttlHours < ttl then
        .error (.invalid s!"a preview in '{env.name}' lives from 1 to {settings.ttlHours} hours")
      else
        match previewRefusal settings (reads.deployments project env.id) project env.id
            name with
        | some why => .error (.precondition "PREVIEW_REFUSED" why)
        | none =>
          .ok
            ({ name := name
               expiresAt := reads.expiresAt ttl
               host := previewHost settings ns
               connectionId := env.connectionId
               connectionsFrom := env.projectId
               removedAt := none
               removalError := none },
              ns)

def previewAsked (req : DeployRequest) (base : String) :
    Except Refusal (Option (Preview × String)) :=
  match req.preview with
  | none => .ok none
  | some ask => (reads.previewFor env project req base ask).map some

def checkPromoted (d : Deployment) : Except Refusal Unit :=
  match env.promoteFrom with
  | none => .ok ()
  | some source =>
    let sourceName := (reads.environmentName source).getD source.text
    match promotionGap env sourceName d (reads.deployments d.projectId source) with
    | none => .ok ()
    | some why => .error (.precondition "RELEASE_NOT_PROMOTED" why)

/-- `check_promoted`, where it applies. -/
def checkPromotedIf (applies : Bool) (d : Deployment) : Except Refusal Unit :=
  if applies then reads.checkPromoted env d else .ok ()

def withChart (place : Place) (req : DeployRequest) (d : Deployment) : Except Refusal Deployment :=
  match trimmedNonempty req.chart, trimmedNonempty req.chartRef with
  | some chart, none => do
    let sha256 ← reads.checkedChart chart
    .ok { d with chartSha256 := sha256 }
  | none, some reference => do
    let chart ← refused (checkChartRef env reference (req.chartVersion.getD ""))
    refused (checkChartInProject chart place.registryPrefix)
    .ok { d with chartRef := some chart }
  | _, _ =>
    .error (.invalid "a deploy carries the chart or names a published one (chart_ref), one of them")

def withDigest (d : Deployment) : Deployment :=
  match d.build, d.chartRef with
  | some build, some chart =>
    match reads.chartDigest build chart with
    | some digest =>
      { d with
        chartSha256 :=
          String.ofList ((Rust.stripPrefix "sha256:".toList digest.toList).getD digest.toList)
        chartRef := some { chart with digest := some digest } }
    | none => d
  | _, _ => d

/-- The images of an install, under the project's own path. -/
def withImages (place : Place) (req : DeployRequest) (d : Deployment) : Except Refusal Deployment :=
  match req.images.mapM fun i =>
      (projectImage env place.registryPrefix i.image).map fun image => DeployImage.mk i.app image
    with
  | .ok images => .ok { d with images := images }
  | .error e => .error (.precondition "IMAGE_NOT_IN_PROJECT_PATH" e.reason)

/-- What an install adds to the deployment, its gate last. -/
def installed (place : Place) (req : DeployRequest) (preview : Option Preview)
    (d : Deployment) : Except Refusal Deployment := do
  refused (checkImages req.images)
  let d ← reads.withChart env place req d
  let commit ← checkHash "commit" req.commit
  let lockHash ← checkHash "lock_hash" req.lockHash
  let build ← checkBuild req.build
  let d := reads.withDigest { d with commit := commit, lockHash := lockHash, build := build }
  let d ← withImages env place req d
  reads.checkPromotedIf env preview.isNone d
  .ok d

def installedIf (place : Place) (req : DeployRequest) (preview : Option Preview)
    (d : Deployment) : Except Refusal Deployment :=
  if req.action = .install then reads.installed env place req preview d else .ok d

/-- `request_deploy` on a cluster, once the namespace is free. -/
def requestClusterDeploy (req : DeployRequest) : Except Refusal Deployment := do
  let req ← reads.released project req
  let product ← releaseName req.product
  let projectName ← reads.projectName
  let place ← reads.place env
  let preview ← reads.previewAsked env project req place.namespace
  let ns := (preview.map Prod.snd).getD place.namespace
  let d := asked reads env project projectName req product ns
  let d ← reads.installedIf env place req (preview.map Prod.fst) d
  let d := { d with preview := preview.map Prod.fst }
  let warnings ← reads.goesOn d
  .ok { d with warnings := warnings }

/-- The refusal of an environment of the project's own whose namespace another's is. -/
def checkNamespaceFree : Except Refusal Unit :=
  if env.projectId.isNone then
    .ok ()
  else do
    let admitted ← reads.admitted
    let projectName ← reads.projectName
    match namespaceClash env admitted projectName with
    | none => .ok ()
    | some taken =>
      .error (.precondition "ENVIRONMENT_NAMESPACE_TAKEN"
        (s!"the organization's environment '{taken.name}' deploys this project into the " ++
          s!"same namespace on the same cluster: rename '{env.name}' or change its " ++
          "namespace pattern"))

def researchBuild (req : DeployRequest) : Except Refusal String :=
  match req.redeployOf, req.build with
  | some earlier, _ => do
    let d ← reads.deployment earlier
    match d.build with
    | some build => .ok build
    | none => .error (.invalid s!"deployment {earlier.text} names no build")
  | none, some build => .ok (trimmed build)
  | none, none =>
    if req.action = .uninstall then
      .ok ""
    else
      .error (.invalid "a deploy to Constructor Research names a build made there")

def researchInstall (build : String) (req : DeployRequest) (d : Deployment) :
    Except Refusal Deployment :=
  if req.action = .install then do
    let b ← reads.buildRecord build build
    if b.ranIn ≠ some "research" then
      .error (.precondition "BUILD_NOT_MADE_IN_RESEARCH"
        (s!"build {build} was not made in Constructor Research, which runs only images it " ++
          "built"))
    else if b.status ≠ "passed" then
      .error (.precondition "BUILD_NOT_PASSED" s!"build {build} is {b.status}, not passed")
    else
      .ok
        { d with
          images := b.images
          product := if d.product = "" then b.product.getD "" else d.product
          profile := if d.profile = "" then b.profile.getD "" else d.profile
          commit := b.commit
          lockHash := b.lockHash }
  else
    .ok d

def productFile (req : DeployRequest) : Except Refusal Unit :=
  match reads.savedProductFile with
  | .ok _ => .ok ()
  | .error e => if req.action = .uninstall then .ok () else .error e

def requestResearchDeploy (req : DeployRequest) : Except Refusal Deployment :=
  if env.research.isNone then
    .error (.precondition "ENVIRONMENT_RESEARCH_UNUSABLE"
      s!"environment '{env.name}' names no Research project")
  else do
    let build ← reads.researchBuild req
    reads.repository
    reads.productFile req
    let d ← reads.researchInstall build req
      (asked reads env project "" req (trimmed req.product) "")
    let product ← releaseName d.product
    let projectName ← reads.projectName
    let ns ← refused (env.patternNamespace projectName)
    let d :=
      { d with
        product := product
        projectName := projectName
        «namespace» := ns
        build := if build = "" then none else some build }
    reads.checkPromotedIf env (req.action = .install) d
    let warnings ← reads.goesOn d
    .ok { d with warnings := warnings }

/-- `request_deploy`, up to what it hands to `submit`. -/
def requestDeploy (req : DeployRequest) : Except Refusal Deployment :=
  match env.kind with
  | .research =>
    if req.preview.isSome then
      .error (.precondition "ENVIRONMENT_TAKES_NO_PREVIEWS"
        (s!"'{env.name}' is a Constructor Research environment: a preview is a namespace " ++
          "of its own on a cluster"))
    else
      reads.requestResearchDeploy env project req
  | .kubernetes => do
    reads.checkNamespaceFree env
    reads.requestClusterDeploy env project req

end DeployReads

open Rust (bind_eq_ok_iff)

/-- What a release adds nothing to: whose deployment it is, where it goes and what it
does. -/
def Deployment.asks (d : Deployment) : Uuid × Uuid × DeploymentAction × String :=
  (d.projectId, d.environmentId, d.action, d.namespace)

section Asked

variable {reads : DeployReads} {env : Environment} {project : Uuid} {req : DeployRequest}
variable {place : Place} {d d' : Deployment}

theorem asks_withChart (h : reads.withChart env place req d = .ok d') : d'.asks = d.asks := by
  unfold DeployReads.withChart at h
  split at h
  · obtain ⟨sha256, -, h⟩ := bind_eq_ok_iff.mp h
    obtain rfl := Except.ok.inj h
    rfl
  · obtain ⟨chart, -, h⟩ := bind_eq_ok_iff.mp h
    obtain ⟨-, -, h⟩ := bind_eq_ok_iff.mp h
    obtain rfl := Except.ok.inj h
    rfl
  · cases h

theorem asks_withDigest (reads : DeployReads) (d : Deployment) :
    (reads.withDigest d).asks = d.asks := by
  unfold DeployReads.withDigest
  split
  · split <;> rfl
  · rfl

theorem asks_withImages (h : DeployReads.withImages env place req d = .ok d') :
    d'.asks = d.asks := by
  unfold DeployReads.withImages at h
  split at h
  · obtain rfl := Except.ok.inj h
    rfl
  · cases h

theorem installed_spec {preview : Option Preview}
    (h : reads.installed env place req preview d = .ok d') :
    d'.asks = d.asks ∧ (preview = none → reads.checkPromoted env d' = .ok ()) := by
  unfold DeployReads.installed at h
  obtain ⟨-, -, h⟩ := bind_eq_ok_iff.mp h
  obtain ⟨charted, hcharted, h⟩ := bind_eq_ok_iff.mp h
  obtain ⟨commit, -, h⟩ := bind_eq_ok_iff.mp h
  obtain ⟨lockHash, -, h⟩ := bind_eq_ok_iff.mp h
  obtain ⟨build, -, h⟩ := bind_eq_ok_iff.mp h
  obtain ⟨imaged, himaged, h⟩ := bind_eq_ok_iff.mp h
  obtain ⟨_, hgate, h⟩ := bind_eq_ok_iff.mp h
  obtain rfl := Except.ok.inj h
  have hchart : charted.asks = d.asks := asks_withChart hcharted
  constructor
  · rw [asks_withImages himaged, asks_withDigest]
    exact hchart
  · rintro rfl
    exact hgate

/-- A deploy on a cluster goes to its place, and an install there passes the gate, unless
it is a preview. -/
theorem requestClusterDeploy_spec (h : reads.requestClusterDeploy env project req = .ok d)
    (hpreview : d.preview = none) :
    ∃ place, reads.place env = .ok place ∧
      d.projectId = project ∧ d.environmentId = env.id ∧ d.namespace = place.namespace ∧
        (d.action = .install → reads.checkPromoted env d = .ok ()) := by
  unfold DeployReads.requestClusterDeploy at h
  obtain ⟨req', -, h⟩ := bind_eq_ok_iff.mp h
  obtain ⟨product, -, h⟩ := bind_eq_ok_iff.mp h
  obtain ⟨projectName, -, h⟩ := bind_eq_ok_iff.mp h
  obtain ⟨place, hplace, h⟩ := bind_eq_ok_iff.mp h
  obtain ⟨preview, -, h⟩ := bind_eq_ok_iff.mp h
  obtain ⟨made, hmade, h⟩ := bind_eq_ok_iff.mp h
  obtain ⟨warnings, -, h⟩ := bind_eq_ok_iff.mp h
  obtain rfl := Except.ok.inj h
  obtain rfl : preview = none := Option.map_eq_none_iff.mp hpreview
  unfold DeployReads.installedIf at hmade
  split at hmade
  · obtain ⟨hasks, hgate⟩ := installed_spec hmade
    simp only [Deployment.asks, Prod.mk.injEq] at hasks
    obtain ⟨hproject, henvironment, _, hns⟩ := hasks
    exact ⟨place, hplace, hproject, henvironment, hns, fun _ => hgate rfl⟩
  · next hother =>
    obtain rfl := Except.ok.inj hmade
    exact ⟨place, hplace, rfl, rfl, rfl, fun hinstall => absurd hinstall hother⟩

theorem asks_researchInstall {build : String} (h : reads.researchInstall build req d = .ok d') :
    d'.asks = d.asks := by
  unfold DeployReads.researchInstall at h
  split at h
  · obtain ⟨b, -, h⟩ := bind_eq_ok_iff.mp h
    split at h
    · cases h
    · split at h
      · cases h
      · obtain rfl := Except.ok.inj h
        rfl
  · obtain rfl := Except.ok.inj h
    rfl

/-- A deploy in Constructor Research goes where the pattern says for the project's name,
and an install there passes the gate. -/
theorem requestResearchDeploy_spec (h : reads.requestResearchDeploy env project req = .ok d) :
    ∃ projectName, reads.projectName = .ok projectName ∧
      d.projectId = project ∧ d.environmentId = env.id ∧
        env.patternNamespace projectName = .ok d.namespace ∧
          (d.action = .install → reads.checkPromoted env d = .ok ()) := by
  unfold DeployReads.requestResearchDeploy at h
  split at h
  · cases h
  · obtain ⟨build, -, h⟩ := bind_eq_ok_iff.mp h
    obtain ⟨-, -, h⟩ := bind_eq_ok_iff.mp h
    obtain ⟨-, -, h⟩ := bind_eq_ok_iff.mp h
    obtain ⟨made, hmade, h⟩ := bind_eq_ok_iff.mp h
    obtain ⟨product, -, h⟩ := bind_eq_ok_iff.mp h
    obtain ⟨projectName, hname, h⟩ := bind_eq_ok_iff.mp h
    obtain ⟨ns, hns, h⟩ := bind_eq_ok_iff.mp h
    obtain ⟨_, hgate, h⟩ := bind_eq_ok_iff.mp h
    obtain ⟨warnings, -, h⟩ := bind_eq_ok_iff.mp h
    obtain rfl := Except.ok.inj h
    have hasks := asks_researchInstall hmade
    simp only [Deployment.asks, Prod.mk.injEq] at hasks
    obtain ⟨hproject, henvironment, haction, -⟩ := hasks
    have hpattern : env.patternNamespace projectName = .ok ns := by
      unfold refused at hns
      split at hns
      · next hok =>
        obtain rfl := Except.ok.inj hns
        exact hok
      · cases hns
    refine ⟨projectName, hname, hproject, henvironment, hpattern, ?_⟩
    intro hinstall
    have haction : req.action = .install := haction.symm.trans hinstall
    unfold DeployReads.checkPromotedIf at hgate
    rw [if_pos (by simpa using haction)] at hgate
    exact hgate

/-- An install that is no preview has passed the gate. -/
theorem gate_of_requestDeploy (h : reads.requestDeploy env project req = .ok d)
    (hinstall : d.action = .install) (hpreview : d.preview = none) :
    d.projectId = project ∧ reads.checkPromoted env d = .ok () := by
  unfold DeployReads.requestDeploy at h
  split at h
  · split at h
    · cases h
    · obtain ⟨_, _, hproject, _, _, hgate⟩ := requestResearchDeploy_spec h
      exact ⟨hproject, hgate hinstall⟩
  · obtain ⟨-, -, h⟩ := bind_eq_ok_iff.mp h
    obtain ⟨_, _, hproject, _, _, hgate⟩ := requestClusterDeploy_spec h hpreview
    exact ⟨hproject, hgate hinstall⟩

end Asked
end Environments
end StudioWeb
