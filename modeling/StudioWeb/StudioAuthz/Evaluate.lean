import StudioWeb.Library.Conditions
import StudioWeb.Library.JsonObject
import StudioWeb.StudioAuthz.AccessConfig

/-!
# What the Studio PDP answers

A request is planned before anything is read: most are answered with the tenant clamp
or refused, a write of an access config is answered by ownership, and a mapped
resource goes down the role path.  An answer is a decision with constraints, which the
enforcement point reads as a filter in arms: constraints are OR-ed, and the predicates
of one are AND-ed.

The reads of a request are given by what they answered, whether from a cache or not.
The enforcement point names the properties of its rows; a resource's properties are
its own, under the same names.
-/

namespace StudioWeb
namespace StudioAuthz

open Scheduler JsonText

inductive PepProperty where
  | ownerTenantId
  | resourceId
  | other (name : String)
deriving DecidableEq

/-- Account-management's PEP attribute carrying the chained metadata schema id. -/
def AM_TYPE_ID_PROPERTY : PepProperty := .other "type_id"

inductive Capability where
  | tenantHierarchy
  | other (name : String)
deriving DecidableEq

structure Subject where
  id : Uuid
  properties : List (String × Json)

structure Resource where
  resourceType : String
  properties : List (PepProperty × Json)

structure RequestContext where
  tenantContext : Option (Option Uuid)
  tokenScopes : List String
  requireConstraints : Bool
  capabilities : List Capability
  supportedProperties : List PepProperty

structure EvaluationRequest where
  subject : Subject
  action : String
  resource : Resource
  context : RequestContext

inductive Predicate where
  | isIn (property : PepProperty) (values : List Uuid)
  | inTenantSubtree (property : PepProperty) (root : Uuid)
deriving DecidableEq

structure Constraint where
  predicates : List Predicate
deriving DecidableEq

structure EvaluationResponse where
  decision : Bool
  constraints : List Constraint
deriving DecidableEq

def ACCESS_METADATA_TYPE : String := "gts.cf.core.am.tenant_metadata.v1~cf.studio.access.config.v1~"

def DOMAIN_OBJECT_RESOURCE : String := "gts.cf.studio.domain.object.v1~"

def GEAR_HELD_METADATA : List String :=
  ["gts.cf.core.am.tenant_metadata.v1~cf.studio.environment.list.v1~",
    "gts.cf.core.am.tenant_metadata.v1~cf.studio.usage.prices.v1~",
    "gts.cf.core.am.tenant_metadata.v1~cf.studio.usage.budgets.v1~",
    "gts.cf.core.am.tenant_metadata.v1~cf.studio.environment.deployments.v1~",
    "gts.cf.core.am.tenant_metadata.v1~cf.studio.organization.logo.v1~",
    "gts.cf.core.am.tenant_metadata.v1~cf.studio.product.gear_explanations.v1~"]

/-- The families whose authorization must never depend on reading the access config. -/
def RECURSION_GUARDED_FAMILIES : List String :=
  ["gts.cf.core.am.tenant.v1", "gts.cf.core.am.tenant_metadata.v1", "gts.cf.core.am.tenant_type.v1"]

/-- The family a GTS type id belongs to: everything before the first `~`. -/
def familyOf (typeId : String) : List Char := typeId.toList.takeWhile fun c => c != '~'

def isRecursionGuarded (typeId : String) : Bool :=
  (RECURSION_GUARDED_FAMILIES.map String.toList).contains (familyOf typeId)

/-- The account-management metadata actions that change a document. -/
def isMutatingMetadataAction (action : String) : Bool := action == "write" || action == "delete"

namespace EvaluationRequest

def mutatedMetadata (request : EvaluationRequest) : Option String :=
  if isMutatingMetadataAction request.action &&
      familyOf request.resource.resourceType == familyOf ACCESS_METADATA_TYPE then
    (request.resource.properties.lookup AM_TYPE_ID_PROPERTY).bind Json.str?
  else
    none

def isAccessConfigWrite (request : EvaluationRequest) : Bool :=
  match request.mutatedMetadata with
  | some typeId => typeId == ACCESS_METADATA_TYPE
  | none => false

/-- Is this a caller's own write to a document only its gear writes? -/
def isGearHeldWrite (request : EvaluationRequest) : Bool :=
  match request.mutatedMetadata with
  | some typeId => GEAR_HELD_METADATA.contains typeId
  | none => false

/-- Whether the enforcement point can filter by a property. -/
def supports (request : EvaluationRequest) (property : PepProperty) : Bool :=
  request.context.supportedProperties.contains property

def hierarchy (request : EvaluationRequest) : Bool :=
  request.context.capabilities.contains .tenantHierarchy

end EvaluationRequest

/-- Map a platform request `(resource_type, action)` to a Studio privilege id. -/
def privilegeFor (resourceType action : String) : Option String :=
  if resourceType = DOMAIN_OBJECT_RESOURCE then
    if action = "read" then
      some "domain.view"
    else if action = "write" then
      some "domain.edit"
    else
      none
  else
    none

/-- `Uuid::default()`. -/
def nilUuid : Uuid := ⟨"00000000-0000-0000-0000-000000000000"⟩

/-- What a request can be answered with before anything is read. -/
inductive Plan where
  | deny
  | clamp (tid : Uuid)
  | roles (tid : Uuid) (privilege : String)
  | accessConfigWrite (tid organization : Uuid)
deriving DecidableEq

section Answers

-- `Uuid::parse_str`, of the `uuid` crate.
variable (parseUuid : String → Option Uuid)

def tenantOf (request : EvaluationRequest) : Option Uuid :=
  request.context.tenantContext.join.or
    (((request.subject.properties.lookup "tenant_id").bind Json.str?).bind parseUuid)

/-- The tenant that owns the resource under decision, as the PEP declared it. -/
def resourceOwnerTenant (request : EvaluationRequest) : Option Uuid :=
  ((request.resource.properties.lookup .ownerTenantId).bind Json.str?).bind parseUuid

def Plan.forTenant (request : EvaluationRequest) (tid : Uuid) : Plan :=
  if request.context.tokenScopes.any fun s => s == "*" then
    .clamp tid
  else if request.isGearHeldWrite then
    .deny
  else if request.isAccessConfigWrite then
    match resourceOwnerTenant parseUuid request with
    | some organization => .accessConfigWrite tid organization
    | none => .deny
  else if isRecursionGuarded request.resource.resourceType then
    .clamp tid
  else
    match privilegeFor request.resource.resourceType request.action with
    | some privilege => .roles tid privilege
    | none => .clamp tid

def Plan.forRequest (request : EvaluationRequest) : Plan :=
  match tenantOf parseUuid request with
  | none => .deny
  | some tid =>
    if tid = nilUuid then
      .deny
    else
      Plan.forTenant parseUuid request tid

/-- The arm that bounds the owner tenant, where the PEP can filter by it. -/
def ownerArm (request : EvaluationRequest) (tids : List Uuid) : List Constraint :=
  if request.supports .ownerTenantId then
    [⟨[.isIn .ownerTenantId tids]⟩]
  else
    []

def subtreeArms (request : EvaluationRequest) (tids : List Uuid)
    (property : PepProperty) : List Constraint :=
  if request.supports property then
    tids.map fun tid => ⟨[.inTenantSubtree property tid]⟩
  else
    []

/-- The tenant-isolation constraints over every tenant the caller may reach. -/
def tenantConstraints (request : EvaluationRequest) (tids : List Uuid) : List Constraint :=
  ownerArm request tids ++
    if request.hierarchy then
      [PepProperty.ownerTenantId, .resourceId].flatMap (subtreeArms request tids)
    else
      []

def tenantClamp (request : EvaluationRequest) (tids : List Uuid) : EvaluationResponse :=
  ⟨true, tenantConstraints request tids⟩

def deny : EvaluationResponse := ⟨false, []⟩

/-- Append the ones that are not already there, preserving order. -/
def extendUnique (into more : List Uuid) : List Uuid :=
  more.foldl (fun acc id => if acc.contains id then acc else acc ++ [id]) into

/-- What the reads of a request answer; one that cannot be made, or failed, is `none`. -/
structure Reads where
  /-- The organizations the caller is a member of. -/
  organizations : Option (List Uuid)
  /-- The keys a grant may name the caller's person by. -/
  grantKeys : Option (List String)
  platformAdmin : Bool
  accessConfig : Uuid → ConfigRead

namespace Reads

def reachableTenants (reads : Reads) (tid : Uuid) : List Uuid :=
  match reads.organizations with
  | some orgs => extendUnique [tid] orgs
  | none => [tid]

def subjectsOfCaller (reads : Reads) (subject : String) : List String :=
  match reads.grantKeys with
  | some subjects => if subjects.isEmpty then [subject] else subjects
  | none => [subject]

end Reads

/-- Who may change the document that decides who owns this organization. -/
def mayWriteAccessConfig (subjects : List String) : ConfigRead → Bool
  | .absent => true
  | .unreadable => false
  | .found cfg =>
    cfg.owns subjects || !cfg.hasAnOwner ||
      (cfg.model == "roles" && cfg.grantsOrgPrivilege subjects "access.manage")

def decideAccessConfigWrite (reads : Reads) (request : EvaluationRequest)
    (tid organization : Uuid) : EvaluationResponse :=
  if reads.platformAdmin then
    tenantClamp request (reads.reachableTenants tid)
  else if mayWriteAccessConfig (reads.subjectsOfCaller request.subject.id.text)
      (reads.accessConfig organization) then
    tenantClamp request (reads.reachableTenants tid)
  else
    deny

/-- And the granted scope ids into every branch of the clamp. -/
def Constraint.narrowed (scopes : List Uuid) (c : Constraint) : Constraint :=
  ⟨c.predicates ++ [.isIn .ownerTenantId scopes]⟩

def answerRoles (reads : Reads) (request : EvaluationRequest)
    (tid : Uuid) : RoleDecision → EvaluationResponse
  | .clamp => tenantClamp request (reads.reachableTenants tid)
  | .deny => deny
  | .narrow scopes =>
    if !request.supports .ownerTenantId then
      deny
    else
      ⟨true, (tenantConstraints request [tid]).map (Constraint.narrowed scopes)⟩

/-- The subject's Teams are not resolved. -/
def evaluate (reads : Reads) (request : EvaluationRequest) : EvaluationResponse :=
  match Plan.forRequest parseUuid request with
  | .deny => deny
  | .clamp tid => tenantClamp request (reads.reachableTenants tid)
  | .accessConfigWrite tid organization =>
    decideAccessConfigWrite reads request tid organization
  | .roles tid privilege =>
    answerRoles reads request tid (StudioAuthz.decide parseUuid
        (reads.subjectsOfCaller request.subject.id.text)
        (reads.accessConfig tid) [] privilege)

end Answers

end StudioAuthz
end StudioWeb
