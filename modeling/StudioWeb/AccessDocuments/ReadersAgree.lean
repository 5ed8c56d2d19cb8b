import StudioWeb.AccessDocuments.Readers

/-!
# Where the two readers agree
-/

namespace StudioWeb
namespace AccessDocuments

open JsonText List Option AccessConfig
open Scheduler (Uuid)

def isText (v : Json) : Bool := v.str?.isSome

def isNullOrText : Json → Bool
  | .null => true
  | v => isText v

def isListOf (fine : Json → Bool) (v : Json) : Bool := v.arr?.any fun items => items.all fine

def isRole (v : Json) : Bool :=
  (structFields ROLE_FIELDS v).any fun field =>
    (field "key").any isText && (field "privileges").all (isListOf isText)

def isGrant (v : Json) : Bool :=
  (structFields GRANT_FIELDS v).any fun field =>
    (field "subjectType").any isText && (field "subjectId").any isText &&
      (field "roleKey").any isText &&
      (field "scopeType").any isText &&
      (field "scopeId").all isNullOrText

def isAccessDocument (v : Json) : Bool :=
  (structFields CONFIG_FIELDS v).any fun field =>
    (field "model").all isText && (field "roles").all (isListOf isRole) &&
      (field "grants").all (isListOf isGrant)

def saysScope (grant : Json) : Bool :=
  (structFields GRANT_FIELDS grant).any fun field =>
    (field "scopeId").any isText

def grantsOf (v : Json) : List Json :=
  (((structFields CONFIG_FIELDS v).bind fun field => field "grants").bind Json.arr?).getD []

def SaysScopes (v : Json) : Prop :=
  isAccessDocument v = true → ∀ grant ∈ grantsOf v, saysScope grant = true

/-- The two readers give the same answers about a document. -/
structure ReadersAgree (parseUuid : String → Option Uuid) (v : Json) : Prop where
  readable : (pdpConfigOfJson v).isSome = (ofJson v).isSome
  ownership :
    ∀ subjects, pdpOwns subjects (readAccessConfig (.found v)) =
        (AccessConfig.read (.found v)).grantsOwnershipTo subjects
  privileges :
    ∀ subjects privilege, pdpGrants subjects privilege (readAccessConfig (.found v)) =
        ((AccessConfig.read (.found v)).isRolesModel &&
          (AccessConfig.read (.found v)).grantsPrivilegeTo subjects privilege)
  clamp :
    ∀ subjects privilege, (AccessConfig.read (.found v)).isRolesModel = true →
      (StudioAuthz.decide parseUuid subjects (readAccessConfig (.found v)) [] privilege = .clamp ↔
        (AccessConfig.read (.found v)).grantsPrivilegeTo subjects privilege = true)

section Readable

variable {α : Type}

theorem any_and (o : Option α) (c : Bool) : (o.any fun _ => c) = (o.isSome && c) := by
  cases o with
  | none => rfl
  | some => rfl

theorem isSome_nullable_str? (v : Json) : (nullable Json.str? v).isSome = isNullOrText v := by
  cases v <;> rfl

theorem isSome_listOf_eq {read : Json → Option α} {fine : Json → Bool}
    (hread : ∀ v, (read v).isSome = fine v) (v : Json) :
    (listOf read v).isSome = isListOf fine v := by
  rw [isSome_listOf, funext hread]
  rfl

theorem isSome_required_str? (field : Option Json) :
    (required Json.str? field).isSome = field.any isText := by
  cases field with
  | none => rfl
  | some => rfl

theorem isSome_defaulted_eq {default : α} {read : Json → Option α} {fine : Json → Bool}
    (hread : ∀ v, (read v).isSome = fine v) (field : Option Json) :
    (defaulted default read field).isSome = field.all fine := by
  rw [isSome_defaulted, funext hread]

variable (v : Json)

theorem isSome_str? : v.str?.isSome = isText v := rfl

theorem isSome_roleOfJson : (roleOfJson v).isSome = isRole v := by
  have hprivileges := @isSome_defaulted_eq _ [] _ _ (isSome_listOf_eq isSome_str?)
  unfold roleOfJson isRole
  cases structFields ROLE_FIELDS v with
  | none => rfl
  | some =>
    simp [isSome_bind, any_and, isSome_required_str?, hprivileges]

theorem isSome_grantOfJson : (GrantDef.ofJson v).isSome = isGrant v := by
  have hscope := @isSome_defaulted_eq _ none _ _ isSome_nullable_str?
  unfold GrantDef.ofJson isGrant
  cases structFields GRANT_FIELDS v with
  | none => rfl
  | some =>
    simp [isSome_bind, any_and, isSome_required_str?, hscope, Bool.and_assoc]

theorem isSome_pdpGrantOfJson :
    (pdpGrantOfJson v).isSome = (isGrant v && saysScope v) := by
  have hscope : ∀ field : Option Json,
      (field.any isText) = (field.all isNullOrText && field.any isText) := by
    intro field
    cases field with
    | none => rfl
    | some scope => cases scope <;> rfl
  unfold pdpGrantOfJson isGrant saysScope
  cases structFields GRANT_FIELDS v with
  | none => rfl
  | some =>
    simp only [any_some, Bool.and_assoc, ← hscope]
    simp [isSome_bind, any_and, isSome_required_str?]

/-- The documents that the gears read. -/
theorem isSome_ofJson : (ofJson v).isSome = isAccessDocument v := by
  have hmodel := @isSome_defaulted_eq _ "" _ _ isSome_str?
  have hroles := @isSome_defaulted_eq _ [] _ _ (isSome_listOf_eq isSome_roleOfJson)
  have hgrants := @isSome_defaulted_eq _ [] _ _ (isSome_listOf_eq isSome_grantOfJson)
  unfold ofJson isAccessDocument
  cases structFields CONFIG_FIELDS v with
  | none => rfl
  | some =>
    simp [isSome_bind, any_and, hmodel, hroles, hgrants, Bool.and_assoc]

theorem isListOf_and {fine more : Json → Bool} (v : Json) :
    isListOf (fun item => fine item && more item) v =
      (isListOf fine v && ((v.arr?).getD []).all more) := by
  cases v with
  | arr items =>
    simp only [isListOf, Json.arr?, any_some, getD_some]
    induction items with
    | nil => rfl
    | cons item _ ih =>
      simp only [all_cons, ih]
      cases fine item <;> cases more item <;> simp
  | _ => rfl

/-- The documents that the PDP reads are those that the gears read and whose grants say
their scopes. -/
theorem isSome_pdpConfigOfJson (v : Json) :
    (pdpConfigOfJson v).isSome = (isAccessDocument v && (grantsOf v).all saysScope) := by
  have hmodel := @isSome_defaulted_eq _ "" _ _ isSome_str?
  have hroles := @isSome_defaulted_eq _ [] _ _ (isSome_listOf_eq isSome_roleOfJson)
  have hgrants := @isSome_defaulted_eq _ [] _ _ (isSome_listOf_eq isSome_pdpGrantOfJson)
  unfold pdpConfigOfJson isAccessDocument grantsOf
  cases structFields CONFIG_FIELDS v with
  | none => rfl
  | some field =>
    simp only [any_some, bind_some]
    cases hlist : field "grants" with
    | none =>
      simp [isSome_bind, any_and, hmodel, hroles, hgrants, hlist]
    | some =>
      simp [isSome_bind, any_and, hmodel, hroles, hgrants, hlist, isListOf_and,
        Bool.and_assoc]

end Readable

section Answers

variable
  {parseUuid : String → Option Uuid}
  {v : Json}
  {cfg : AccessConfig}
  {pdp : StudioAuthz.AccessConfig}
  {subjects : List String}
  {privilege : String}

theorem any_of_mapM {α β : Type} {f : α → Option β} {p : α → Bool} {q : β → Bool}
    (hsame : ∀ x y, f x = some y → q y = p x) :
    ∀ {xs : List α} {ys : List β}, xs.mapM f = some ys →
      ys.any q = xs.any p := by
  intro xs
  induction xs with
  | nil =>
    intro ys h
    cases h
    rfl
  | cons x _ ih =>
    intro ys h
    rw [mapM_cons] at h
    obtain ⟨y, hy, h⟩ := bind_eq_some_iff.mp h
    obtain ⟨zs, hzs, h⟩ := bind_eq_some_iff.mp h
    cases h
    rw [any_cons, any_cons, hsame x y hy, ih hzs]

section

variable (h : cfg.scoped = some pdp)
include h

theorem any_of_scoped {p : GrantDef → Bool} {q : StudioAuthz.GrantDef → Bool}
    (hsame : ∀ g scopeId, q ⟨g.subjectType, g.subjectId, g.roleKey, g.scopeType, scopeId⟩ = p g) :
    pdp.grants.any q = cfg.grants.any p := by
  obtain ⟨grants, hgrants, rfl⟩ := map_eq_some_iff.mp h
  refine any_of_mapM ?_ hgrants
  intro g g' hg
  obtain ⟨scopeId, _, rfl⟩ := map_eq_some_iff.mp hg
  exact hsame g scopeId

theorem model_of_scoped : pdp.model = cfg.model := by
  obtain ⟨grants, _, rfl⟩ := map_eq_some_iff.mp h
  rfl

theorem roleCarries_of_scoped (roleKey : String) :
    (roleKey == StudioAuthz.ROLE_OWNER || pdp.roleCarries roleKey privilege) =
      cfg.roleCarries roleKey privilege := by
  obtain ⟨grants, _, rfl⟩ := map_eq_some_iff.mp h
  unfold roleCarries StudioAuthz.AccessConfig.roleCarries
  cases cfg.roles.find? fun r => r.key == roleKey with
  | none => rfl
  | some => rfl

theorem owns_of_scoped :
    pdp.owns subjects = cfg.grantsOwnershipTo subjects :=
  any_of_scoped h fun _ _ => rfl

theorem grantsOrgPrivilege_of_scoped :
    pdp.grantsOrgPrivilege subjects privilege = cfg.grantsPrivilegeTo subjects privilege := by
  refine any_of_scoped h ?_
  intro g scopeId
  rw [← roleCarries_of_scoped h]
  rfl

end

theorem decide_eq_clamp_iff (hmodel : pdp.model = "roles") :
    StudioAuthz.decide parseUuid subjects (.found pdp) [] privilege = .clamp ↔
      pdp.grantsOrgPrivilege subjects privilege = true := by
  have hwide : StudioAuthz.OrgWide subjects [] pdp privilege pdp.grants ↔
        pdp.grantsOrgPrivilege subjects privilege = true := by
    simp only [StudioAuthz.OrgWide, StudioAuthz.AccessConfig.grantsOrgPrivilege, List.any_eq_true]
    refine exists_congr fun g => and_congr_right fun _ => ?_
    constructor
    · rintro ⟨⟨hcaller, hrole⟩, hscope⟩
      have hmember : g.subjectType = "member" ∧ subjects.contains g.subjectId = true := by
        unfold StudioAuthz.GrantDef.subjectMatches at hcaller
        split at hcaller
        · next hmember => exact ⟨hmember, hcaller⟩
        · split at hcaller
          · cases hcaller
          · cases hcaller
      unfold StudioAuthz.GrantDef.roleHas at hrole
      rw [hmember.1, hmember.2, hscope, hrole]
      rfl
    · intro h
      simp only [Bool.and_eq_true, beq_iff_eq] at h
      obtain ⟨⟨⟨hmember, hsubject⟩, hscope⟩, hrole⟩ := h
      refine ⟨⟨?_, hrole⟩, hscope⟩
      unfold StudioAuthz.GrantDef.subjectMatches
      rw [if_pos hmember]
      exact hsubject
  rw [← hwide]
  have htells := @StudioAuthz.decide_tells parseUuid subjects [] pdp privilege hmodel
  generalize StudioAuthz.decide parseUuid subjects (.found pdp) [] privilege = d at htells ⊢
  constructor
  · intro hclamp
    subst hclamp
    cases htells with
    | clamp horg => exact horg
  · intro horg
    cases htells with
    | clamp => rfl
    | deny hnot => exact absurd horg hnot
    | narrow hnot => exact absurd horg hnot

/-- **The two readers agree about a document where each of its grants says its scope.** -/
theorem readers_agree_iff (parseUuid : String → Option Uuid) (v : Json) :
    ReadersAgree parseUuid v ↔ SaysScopes v := by
  constructor
  · intro hagree hdocument grant hgrant
    have hboth := hagree.readable
    rw [isSome_pdpConfigOfJson, isSome_ofJson, hdocument] at hboth
    exact List.all_eq_true.mp hboth grant hgrant
  · intro hscopes
    have hread := pdpConfigOfJson_eq v
    cases hcfg : ofJson v with
    | none =>
      rw [hcfg] at hread
      refine ⟨by rw [hread, hcfg]; rfl, ?_, ?_, ?_⟩
      · intro subjects
        simp [readAccessConfig, hread, pdpOwns, AccessConfig.read, hcfg, empty,
          grantsOwnershipTo]
      · intro subjects privilege
        simp [readAccessConfig, hread, pdpGrants, AccessConfig.read, hcfg, empty,
          grantsPrivilegeTo]
      · intro subjects privilege hmodel
        simp [AccessConfig.read, hcfg, empty, isRolesModel,
          MODEL_ROLES] at hmodel
    | some cfg =>
      have hdocument : isAccessDocument v = true := by
        rw [← isSome_ofJson, hcfg]
        rfl
      have hpdp : (pdpConfigOfJson v).isSome = true := by
        rw [isSome_pdpConfigOfJson, hdocument, List.all_eq_true.mpr (hscopes hdocument)]
        rfl
      obtain ⟨pdp, hpdp⟩ := isSome_iff_exists.mp hpdp
      have hscoped : cfg.scoped = some pdp := by
        rw [hcfg, bind_some] at hread
        rw [← hread, hpdp]
      have hmodel := model_of_scoped hscoped
      refine ⟨by rw [hpdp, hcfg]; rfl, ?_, ?_, ?_⟩
      · intro subjects
        simp only [readAccessConfig, hpdp, pdpOwns, AccessConfig.read, hcfg, getD_some]
        exact owns_of_scoped hscoped
      · intro subjects privilege
        simp only [readAccessConfig, hpdp, pdpGrants, AccessConfig.read, hcfg,
          getD_some, isRolesModel, hmodel,
          grantsOrgPrivilege_of_scoped hscoped]
        rfl
      · intro subjects privilege hroles
        simp only [readAccessConfig, hpdp, AccessConfig.read, hcfg, getD_some] at hroles ⊢
        rw [decide_eq_clamp_iff (hmodel.trans (beq_iff_eq.mp hroles)),
          grantsOrgPrivilege_of_scoped hscoped]

def scopelessOwner : Json :=
  .obj [("grants", .arr [.obj [("roleKey", .str "owner"), ("scopeType", .str "org"),
      ("subjectId", .str "ann"), ("subjectType", .str "member")]]),
    ("model", .str "roles")]

/-- The gears hold its person for an owner with every privilege; the PDP cannot read it. -/
theorem scopeless_owner_divides_readers :
    (AccessConfig.read (.found scopelessOwner)).grantsOwnershipTo ["ann"] = true ∧
      (AccessConfig.read (.found scopelessOwner)).isRolesModel = true ∧
      (AccessConfig.read (.found scopelessOwner)).grantsPrivilegeTo ["ann"] "domain.edit" = true ∧
      readAccessConfig (.found scopelessOwner) = .unreadable ∧
      pdpOwns ["ann"] (readAccessConfig (.found scopelessOwner)) = false ∧
      StudioAuthz.decide (fun _ => none) ["ann"] (readAccessConfig (.found scopelessOwner)) []
        "domain.edit" = .deny ∧
      ¬ ReadersAgree (fun _ => none) scopelessOwner := by
  refine ⟨by decide, by decide, by decide, by decide, by decide, by decide, ?_⟩
  intro hagree
  have hsame := hagree.ownership ["ann"]
  revert hsame
  decide

end Answers

end AccessDocuments
end StudioWeb
