import StudioWeb.AccessDocuments.Readers
import StudioWeb.UserProfile.OwnerGrants

/-!
# Setting an owner grant in an access document

`set_owner_grant` edits the JSON document as it is: it gives the role ladder to a document
without roles, removes the organization-wide owner grants on the keys of a person, and adds
one for an owner.
-/

namespace StudioWeb
namespace AccessDocuments

open JsonText
open Scheduler (Uuid)
open StudioAuthz (ROLE_OWNER)

structure GrantSubject where
  key : String
  name : String
  legacyKeys : List String
deriving DecidableEq

/-- A call of `set_owner_grant`; the id is the one that is drawn for the grant. -/
structure GrantCall where
  tenantId : Uuid
  tenantName : String
  subject : GrantSubject
  owner : Bool
  newId : Uuid
deriving DecidableEq

def texts (items : List String) : Json := .arr (items.map .str)

def roleJson (key name : String) (privileges : List String) : Json :=
  Json.object [("key", .str key), ("name", .str name), ("system", .bool true),
    ("privileges", texts privileges)]

/-- The role ladder a fresh organization is seeded with. -/
def defaultRoles : Json :=
  .arr [roleJson ROLE_OWNER "Owner" UserProfile.PRIVILEGES,
      roleJson "admin" "Admin" (UserProfile.PRIVILEGES.filter fun p => p != "access.manage"),
      roleJson "editor" "Editor"
        ["people.view", "document.view", "document.edit", "connector.view", "secret.view",
          "session.open", "domain.view", "domain.edit"],
      roleJson "viewer" "Viewer"
        (UserProfile.PRIVILEGES.filter fun p => StudioAuthz.endsWith p ".view")]

/-- The document of an organization that has none until its first grant. -/
def freshDocument : Json :=
  Json.object [("model", .str "tenant"), ("roles", defaultRoles), ("grants", .arr [])]

def missingRoles (config : Json) : Bool :=
  match (config.get? "roles").bind Json.arr? with
  | none => true
  | some roles => roles.isEmpty

/-- A document with the ladder, if it has no roles. -/
def seedRoles (config : Json) : Json :=
  if missingRoles config then config.setField "roles" defaultRoles else config

def isOwnerGrantOn (named : String → Bool) (grant : Json) : Bool :=
  grant.getStr? "subjectType" == some SUBJECT_MEMBER && (grant.getStr? "subjectId").any named &&
    grant.getStr? "scopeType" == some SCOPE_ORG &&
    grant.getStr? "roleKey" == some ROLE_OWNER

namespace GrantCall

def names (c : GrantCall) (key : String) : Bool :=
  key == c.subject.key || c.subject.legacyKeys.any fun k => k == key

def removes (c : GrantCall) : Json → Bool := isOwnerGrantOn c.names

def ownerGrant (c : GrantCall) : Json :=
  Json.object [("id", .str c.newId.text), ("subjectType", .str SUBJECT_MEMBER),
    ("subjectId", .str c.subject.key), ("subjectName", .str c.subject.name),
    ("roleKey", .str ROLE_OWNER), ("scopeType", .str SCOPE_ORG),
    ("scopeId", .str c.tenantId.text), ("scopeName", .str c.tenantName)]

def added (c : GrantCall) : List Json :=
  if c.owner then [c.ownerGrant] else []

end GrantCall

/-- The edit of `set_owner_grant`. -/
def setOwnerGrant (c : GrantCall) (config : Json) : Except String Json :=
  if config.isObject then
    let seeded := seedRoles config
    match (seeded.get? "grants").getD (.arr []) with
    | .arr grants =>
      .ok (seeded.setField "grants"
        (.arr (grants.filter (fun grant => !c.removes grant) ++ c.added)))
    | _ => .error "organization access grants are not an array"
  else
    .error "organization access config is not an object"

def listed (config : Json) : List Json := ((config.get? "grants").bind Json.arr?).getD []

section Edit

variable
  {c : GrantCall}
  {config edited : Json}

theorem get?_seedRoles (hobject : config.isObject = true) (name : String) :
    (seedRoles config).get? name =
      if name = "roles" ∧ missingRoles config = true then some defaultRoles
      else config.get? name := by
  unfold seedRoles
  by_cases hmissing : missingRoles config = true
  · rw [if_pos hmissing, Json.get?_setField _ _ _ hobject]
    simp [hmissing]
  · rw [if_neg hmissing, if_neg (fun h => hmissing h.2)]

theorem isObject_seedRoles (hobject : config.isObject = true) :
    (seedRoles config).isObject = true := by
  cases config with
  | obj =>
    unfold seedRoles
    split
    · rfl
    · rfl
  | _ => cases hobject

theorem get?_ownerGrant (name : String) :
    c.ownerGrant.get? name =
      if name = "scopeName" then some (.str c.tenantName)
      else if name = "scopeId" then some (.str c.tenantId.text)
      else if name = "scopeType" then some (.str SCOPE_ORG)
      else if name = "roleKey" then some (.str ROLE_OWNER)
      else if name = "subjectName" then some (.str c.subject.name)
      else if name = "subjectId" then some (.str c.subject.key)
      else if name = "subjectType" then some (.str SUBJECT_MEMBER)
      else if name = "id" then some (.str c.newId.text)
      else none := by
  simp only [GrantCall.ownerGrant, Json.object, List.foldl_cons, List.foldl_nil, Json.get?,
    Json.lookup_insertField, List.lookup_nil]

theorem isOwnerGrantOn_ownerGrant (named : String → Bool) :
    isOwnerGrantOn named c.ownerGrant = named c.subject.key := by
  simp [isOwnerGrantOn, Json.getStr?, get?_ownerGrant, Json.str?]

/-- **What an edited document is.** -/
theorem setOwnerGrant_ok (h : setOwnerGrant c config = .ok edited) :
    config.isObject = true ∧ edited.isObject = true ∧
      (∀ name, name ≠ "roles" → name ≠ "grants" → edited.get? name = config.get? name) ∧
      (edited.get? "roles" =
        if missingRoles config then some defaultRoles else config.get? "roles") ∧
      edited.get? "grants" =
        some (.arr ((listed config).filter (fun grant => !c.removes grant) ++ c.added)) := by
  unfold setOwnerGrant at h
  split at h
  · next hobject =>
    have hseeded := isObject_seedRoles hobject
    simp only at h
    split at h
    · next grants hgrants =>
      cases h
      refine ⟨hobject, Json.isObject_of_get? (Json.get?_setField _ "grants" _ hseeded), ?_, ?_, ?_⟩
      · intro name hroles hgrants'
        rw [Json.get?_setField_ne _ hgrants', get?_seedRoles hobject,
          if_neg (fun h => hroles h.1)]
      · rw [Json.get?_setField_ne _ (by decide), get?_seedRoles hobject]
        simp
      · have hbefore : listed config = grants := by
          rw [get?_seedRoles hobject, if_neg (by simp)] at hgrants
          unfold listed
          cases hlist : config.get? "grants" with
          | none =>
            rw [hlist] at hgrants
            cases hgrants
            rfl
          | some =>
            rw [hlist] at hgrants
            cases hgrants
            rfl
        rw [Json.get?_setField _ _ _ hseeded, if_pos rfl, hbefore]
    · cases h
  · cases h

theorem listed_setOwnerGrant (h : setOwnerGrant c config = .ok edited) :
    listed edited = (listed config).filter (fun grant => !c.removes grant) ++ c.added := by
  obtain ⟨_, _, _, _, hgrants⟩ := setOwnerGrant_ok h
  rw [listed, hgrants]
  rfl

end Edit

end AccessDocuments
end StudioWeb
