import StudioWeb.Library.JsonObject
import StudioWeb.StudioAuthz.AccessConfig

/-!
# The two readers of an access document

An organization's access document is JSON in account-management.  The gears read it by
`access_config`, the PDP by a copy of its own in which a grant has its scope.  The rest of
the two shapes is the same.
-/

namespace StudioWeb
namespace AccessDocuments

open JsonText Option

inductive MetadataRead where
  | found (value : Json)
  | absent
  | failed

/-- `scopeType` for a grant covering a whole organization. -/
def SCOPE_ORG : String := "org"

/-- `subjectType` for a grant naming one person rather than a team. -/
def SUBJECT_MEMBER : String := "member"

/-- The `model` value that turns role evaluation on for an organization. -/
def MODEL_ROLES : String := "roles"

def CONFIG_FIELDS : List String := ["model", "roles", "grants"]

def ROLE_FIELDS : List String := ["key", "privileges"]

def GRANT_FIELDS : List String := ["subjectType", "subjectId", "roleKey", "scopeType", "scopeId"]

/-- A grant, as the gears read it. -/
structure GrantDef where
  subjectType : String
  subjectId : String
  roleKey : String
  scopeType : String
  scopeId : Option String
deriving DecidableEq

/-- The document, as the gears read it. -/
structure AccessConfig where
  model : String
  roles : List StudioAuthz.RoleDef
  grants : List GrantDef
deriving DecidableEq

def roleOfJson (v : Json) : Option StudioAuthz.RoleDef := do
  let field ← structFields ROLE_FIELDS v
  let key ← required Json.str? (field "key")
  let privileges ← defaulted [] (listOf Json.str?) (field "privileges")
  return ⟨key, privileges⟩

def GrantDef.ofJson (v : Json) : Option GrantDef := do
  let field ← structFields GRANT_FIELDS v
  let subjectType ← required Json.str? (field "subjectType")
  let subjectId ← required Json.str? (field "subjectId")
  let roleKey ← required Json.str? (field "roleKey")
  let scopeType ← required Json.str? (field "scopeType")
  let scopeId ← defaulted none (nullable Json.str?) (field "scopeId")
  return ⟨subjectType, subjectId, roleKey, scopeType, scopeId⟩

namespace AccessConfig

def ofJson (v : Json) : Option AccessConfig := do
  let field ← structFields CONFIG_FIELDS v
  let model ← defaulted "" Json.str? (field "model")
  let roles ← defaulted [] (listOf roleOfJson) (field "roles")
  let grants ← defaulted [] (listOf GrantDef.ofJson) (field "grants")
  return ⟨model, roles, grants⟩

/-- `AccessConfig::default()`. -/
def empty : AccessConfig := ⟨"", [], []⟩

/-- Does the person behind `subjects` hold the organization-wide owner grant? -/
def grantsOwnershipTo (cfg : AccessConfig) (subjects : List String) : Bool :=
  cfg.grants.any fun g =>
    g.subjectType == SUBJECT_MEMBER && subjects.contains g.subjectId &&
      g.roleKey == StudioAuthz.ROLE_OWNER &&
      g.scopeType == SCOPE_ORG

/-- Has this organization opted into role-based access? -/
def isRolesModel (cfg : AccessConfig) : Bool := cfg.model == MODEL_ROLES

/-- An owner's authority is definitional rather than looked up. -/
def roleCarries (cfg : AccessConfig) (roleKey privilege : String) : Bool :=
  roleKey == StudioAuthz.ROLE_OWNER || (cfg.roles.find? fun r => r.key == roleKey).any fun r =>
      StudioAuthz.carries r.privileges privilege

/-- Does `subject` hold `privilege` across the whole organization? -/
def grantsPrivilegeTo (cfg : AccessConfig) (subjects : List String) (privilege : String) : Bool :=
  cfg.grants.any fun g =>
    g.subjectType == SUBJECT_MEMBER && subjects.contains g.subjectId && g.scopeType == SCOPE_ORG &&
      cfg.roleCarries g.roleKey privilege

/-- A document that is not there or cannot be read has no grants. -/
def read : MetadataRead → AccessConfig
  | .found value => (ofJson value).getD empty
  | .absent => empty
  | .failed => empty

/-- What cannot be read is another answer than a document without grants. -/
def tryRead : MetadataRead → Option AccessConfig
  | .found value => ofJson value
  | .absent => some empty
  | .failed => none

end AccessConfig

def pdpGrantOfJson (v : Json) : Option StudioAuthz.GrantDef := do
  let field ← structFields GRANT_FIELDS v
  let subjectType ← required Json.str? (field "subjectType")
  let subjectId ← required Json.str? (field "subjectId")
  let roleKey ← required Json.str? (field "roleKey")
  let scopeType ← required Json.str? (field "scopeType")
  let scopeId ← required Json.str? (field "scopeId")
  return ⟨subjectType, subjectId, roleKey, scopeType, scopeId⟩

/-- The document, as the PDP reads it. -/
def pdpConfigOfJson (v : Json) : Option StudioAuthz.AccessConfig := do
  let field ← structFields CONFIG_FIELDS v
  let model ← defaulted "" Json.str? (field "model")
  let roles ← defaulted [] (listOf roleOfJson) (field "roles")
  let grants ← defaulted [] (listOf pdpGrantOfJson) (field "grants")
  return ⟨model, roles, grants⟩

/-- A document that does not parse is not a document that says "tenant". -/
def readAccessConfig : MetadataRead → StudioAuthz.ConfigRead
  | .found value =>
    match pdpConfigOfJson value with
    | some cfg => .found cfg
    | none => .unreadable
  | .absent => .absent
  | .failed => .unreadable

/-- Does the PDP hold the person behind `subjects` for an owner? -/
def pdpOwns (subjects : List String) : StudioAuthz.ConfigRead → Bool
  | .found cfg => cfg.owns subjects
  | _ => false

/-- Does the PDP hold that a privilege is theirs, organization-wide, under the roles? -/
def pdpGrants (subjects : List String) (privilege : String) : StudioAuthz.ConfigRead → Bool
  | .found cfg => cfg.model == "roles" && cfg.grantsOrgPrivilege subjects privilege
  | _ => false

def GrantDef.scoped (g : GrantDef) : Option StudioAuthz.GrantDef :=
  g.scopeId.map fun scopeId => ⟨g.subjectType, g.subjectId, g.roleKey, g.scopeType, scopeId⟩

def AccessConfig.scoped (cfg : AccessConfig) : Option StudioAuthz.AccessConfig :=
  (cfg.grants.mapM GrantDef.scoped).map fun grants => ⟨cfg.model, cfg.roles, grants⟩

theorem required_str? (field : Option Json) :
    required Json.str? field = (defaulted none (nullable Json.str?) field).bind id := by
  cases field with
  | none => rfl
  | some v => cases v <;> rfl

/-- **The PDP reads a grant that the gears read with a scope.** -/
theorem pdpGrantOfJson_eq (v : Json) :
    pdpGrantOfJson v = (GrantDef.ofJson v).bind GrantDef.scoped := by
  unfold pdpGrantOfJson GrantDef.ofJson
  cases structFields GRANT_FIELDS v with
  | none => rfl
  | some field =>
    simp only [required_str? (field "scopeId"), bind_eq_bind, bind_some,
      bind_assoc]
    refine Option.bind_congr fun subjectType _ => ?_
    refine Option.bind_congr fun subjectId _ => ?_
    refine Option.bind_congr fun roleKey _ => ?_
    refine Option.bind_congr fun scopeType _ => ?_
    refine Option.bind_congr fun scopeId _ => ?_
    cases scopeId with
    | none => rfl
    | some => rfl

/-- **The PDP reads a document that the gears read with a scope in every grant.** -/
theorem pdpConfigOfJson_eq (v : Json) :
    pdpConfigOfJson v = (AccessConfig.ofJson v).bind AccessConfig.scoped := by
  have hgrants : ∀ field : Option Json,
      defaulted [] (listOf pdpGrantOfJson) field =
        (defaulted [] (listOf GrantDef.ofJson) field).bind fun gs => gs.mapM GrantDef.scoped := by
    intro field
    cases field with
    | none => rfl
    | some value =>
      have hread := listOf_bind (f := GrantDef.ofJson) (g := GrantDef.scoped) value
      rw [← funext pdpGrantOfJson_eq] at hread
      exact hread
  unfold pdpConfigOfJson AccessConfig.ofJson
  cases structFields CONFIG_FIELDS v with
  | none => rfl
  | some =>
    simp only [hgrants, bind_eq_bind, bind_some, bind_assoc]
    refine Option.bind_congr fun model _ => ?_
    refine Option.bind_congr fun roles _ => ?_
    refine Option.bind_congr fun grants _ => ?_
    change _ = AccessConfig.scoped ⟨model, roles, grants⟩
    rw [AccessConfig.scoped, map_eq_bind]
    rfl

end AccessDocuments
end StudioWeb
