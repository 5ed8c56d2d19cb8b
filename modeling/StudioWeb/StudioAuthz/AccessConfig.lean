import StudioWeb.Library.RustPrelude
import StudioWeb.Scheduler.TaskQueue
import Mathlib.Data.List.Perm.Basic

/-!
# The role decision of the Studio PDP

An organization's access document holds roles, with their privileges, and grants,
which give a role to a member across the organization or inside a project.  `decide`
walks the grants of a caller that carry a privilege: one across the organization
answers with the clamp at once, the ones inside a project collect their scope ids.
-/

namespace StudioWeb
namespace StudioAuthz

open Scheduler

structure RoleDef where
  key : String
  privileges : List String
deriving DecidableEq

structure GrantDef where
  subjectType : String
  subjectId : String
  roleKey : String
  scopeType : String
  scopeId : String
deriving DecidableEq

structure AccessConfig where
  model : String
  roles : List RoleDef
  grants : List GrantDef
deriving DecidableEq

def ROLE_OWNER : String := "owner"

/-- `text.ends_with(suffix)`. -/
def endsWith (text suffix : String) : Bool := suffix.toList.isSuffixOf text.toList

/-- A privilege to change some gear's records. -/
def writes (privilege : String) : Bool := endsWith privilege ".edit" || endsWith privilege ".manage"

/-- Does a role with `privileges` carry `wanted`? -/
def carries (privileges : List String) (wanted : String) : Bool :=
  privileges.contains wanted ||
    if wanted = "domain.view" then
      privileges.any fun p => endsWith p ".view" || writes p
    else if wanted = "domain.edit" then
      (privileges.filter fun p => p != "domain.model").any writes
    else
      false

namespace AccessConfig

def roleCarries (cfg : AccessConfig) (roleKey privilege : String) : Bool :=
  match cfg.roles.find? fun r => r.key == roleKey with
  | some role => carries role.privileges privilege
  | none => false

/-- Does the person behind `subjects` hold the organization-wide owner grant? -/
def owns (cfg : AccessConfig) (subjects : List String) : Bool :=
  cfg.grants.any fun g =>
    g.subjectType == "member" && subjects.contains g.subjectId && g.roleKey == ROLE_OWNER &&
      g.scopeType == "org"

/-- Does anybody own this organization? -/
def hasAnOwner (cfg : AccessConfig) : Bool :=
  cfg.grants.any fun g =>
    g.roleKey == ROLE_OWNER && g.scopeType == "org"

/-- Does `subject` hold `privilege` across the whole organization? -/
def grantsOrgPrivilege (cfg : AccessConfig) (subjects : List String) (privilege : String) : Bool :=
  cfg.grants.any fun g =>
    g.subjectType == "member" && subjects.contains g.subjectId && g.scopeType == "org" &&
      (g.roleKey == ROLE_OWNER || cfg.roleCarries g.roleKey privilege)

end AccessConfig

inductive ConfigRead where
  | found (cfg : AccessConfig)
  | absent
  | unreadable
deriving DecidableEq

/-- What the role path decides, before the answer is shaped into constraints. -/
inductive RoleDecision where
  | clamp
  | deny
  | narrow (scopes : List Uuid)
deriving DecidableEq

namespace GrantDef

/-- Whether a grant names the caller. -/
def subjectMatches (subjects subjectTeams : List String) (g : GrantDef) : Bool :=
  if g.subjectType = "member" then
    subjects.contains g.subjectId
  else if g.subjectType = "team" then
    subjectTeams.contains g.subjectId
  else
    false

/-- An owner's authority is definitional, not looked up. -/
def roleHas (cfg : AccessConfig) (privilege : String) (g : GrantDef) : Bool :=
  g.roleKey == ROLE_OWNER || cfg.roleCarries g.roleKey privilege

end GrantDef

section Decide

-- `Uuid::parse_str`, of the `uuid` crate.
variable (parseUuid : String → Option Uuid)

def walkGrants (subjects subjectTeams : List String) (cfg : AccessConfig) (privilege : String) :
    List Uuid → List GrantDef → RoleDecision
  | scopes, [] =>
    if scopes.isEmpty then .deny else .narrow scopes
  | scopes, g :: rest =>
    if !g.subjectMatches subjects subjectTeams then
      walkGrants subjects subjectTeams cfg privilege scopes rest
    else if !g.roleHas cfg privilege then
      walkGrants subjects subjectTeams cfg privilege scopes rest
    else if g.scopeType = "org" then
      .clamp
    else if g.scopeType = "project" then
      match parseUuid g.scopeId with
      | some pid =>
        walkGrants subjects subjectTeams cfg privilege (scopes ++ [pid]) rest
      | none =>
        walkGrants subjects subjectTeams cfg privilege scopes rest
    else
      walkGrants subjects subjectTeams cfg privilege scopes rest

/-- Decide the role path from a config read and the subject's identity. -/
protected def decide (subjects : List String) (read : ConfigRead) (subjectTeams : List String)
    (privilege : String) : RoleDecision :=
  match read with
  | .unreadable => .deny
  | .absent => .clamp
  | .found cfg =>
    if cfg.model ≠ "roles" then
      .clamp
    else
      walkGrants parseUuid subjects subjectTeams cfg privilege [] cfg.grants

end Decide

section Conferring

variable
  {parseUuid : String → Option Uuid}
  {subjects subjectTeams : List String}
  {cfg cfg' : AccessConfig}
  {privilege : String}
  {grants grants' : List GrantDef}
  {scopes : List Uuid}
  {g : GrantDef}

/-- A grant of the caller whose role is owner or carries the privilege. -/
structure GrantDef.Confers
    (subjects subjectTeams : List String) (cfg : AccessConfig) (privilege : String)
    (g : GrantDef) : Prop where
  ofCaller : g.subjectMatches subjects subjectTeams = true
  carrying : g.roleHas cfg privilege = true

/-- The privilege is conferred across the organization. -/
def OrgWide (subjects subjectTeams : List String) (cfg : AccessConfig) (privilege : String)
    (grants : List GrantDef) : Prop :=
  ∃ g ∈ grants, g.Confers subjects subjectTeams cfg privilege ∧ g.scopeType = "org"

/-- The privilege is conferred inside the project `pid`. -/
def InProject (parseUuid : String → Option Uuid) (subjects subjectTeams : List String)
    (cfg : AccessConfig) (privilege : String) (grants : List GrantDef) (pid : Uuid) : Prop :=
  ∃ g ∈ grants, g.Confers subjects subjectTeams cfg privilege ∧
      g.scopeType = "project" ∧ parseUuid g.scopeId = some pid

/-- What a decision says of the grants it was made from. -/
inductive RoleDecision.Tells
    (orgWide : Prop) (inProject : Uuid → Prop) :
    RoleDecision → Prop
  | clamp
      (horg : orgWide) :
      Tells orgWide inProject .clamp
  | deny
      (horg : ¬ orgWide)
      (hproject : ∀ pid, ¬ inProject pid) :
      Tells orgWide inProject .deny
  | narrow
      {scopes : List Uuid}
      (horg : ¬ orgWide)
      (hne : scopes ≠ [])
      (hscopes : ∀ pid, pid ∈ scopes ↔ inProject pid) :
      Tells orgWide inProject (.narrow scopes)

theorem orgWide_nil : ¬ OrgWide subjects subjectTeams cfg privilege [] := by
  simp [OrgWide]

theorem orgWide_cons :
    OrgWide subjects subjectTeams cfg privilege (g :: grants) ↔
      (g.Confers subjects subjectTeams cfg privilege ∧ g.scopeType = "org") ∨
        OrgWide subjects subjectTeams cfg privilege grants := by
  simp [OrgWide]

variable {pid : Uuid}

theorem inProject_cons :
    InProject parseUuid subjects subjectTeams cfg privilege (g :: grants) pid ↔
      (g.Confers subjects subjectTeams cfg privilege ∧
        g.scopeType = "project" ∧ parseUuid g.scopeId = some pid) ∨
        InProject parseUuid subjects subjectTeams cfg privilege grants pid := by
  simp [InProject]

theorem RoleDecision.Tells.congr {orgWide orgWide' : Prop} {inProject inProject' : Uuid → Prop}
    {d : RoleDecision} (h : d.Tells orgWide inProject) (horg : orgWide ↔ orgWide')
    (hproject : ∀ pid, inProject pid ↔ inProject' pid) : d.Tells orgWide' inProject' := by
  have hpred : inProject = inProject' := by
    funext pid
    exact propext (hproject pid)
  rw [← propext horg, ← hpred]
  exact h

theorem walkGrants_skip (hskip : ¬ g.Confers subjects subjectTeams cfg privilege) :
    walkGrants parseUuid subjects subjectTeams cfg privilege scopes (g :: grants) =
      walkGrants parseUuid subjects subjectTeams cfg privilege scopes grants := by
  by_cases hcaller : g.subjectMatches subjects subjectTeams = true
  · have hrole : g.roleHas cfg privilege = false := by
      by_contra hrole
      exact hskip ⟨hcaller, by simpa using hrole⟩
    simp [walkGrants, hcaller, hrole]
  · simp [walkGrants, hcaller]

theorem walkGrants_tells :
    (walkGrants parseUuid subjects subjectTeams cfg privilege scopes grants).Tells
      (OrgWide subjects subjectTeams cfg privilege grants)
      (fun pid =>
        pid ∈ scopes ∨
          InProject parseUuid subjects subjectTeams cfg privilege grants pid) := by
  induction grants generalizing scopes with
  | nil =>
    cases scopes with
    | nil =>
      exact .deny orgWide_nil (by simp [InProject])
    | cons =>
      exact .narrow orgWide_nil (by simp) (by simp [InProject])
  | cons g grants ih =>
    by_cases hconfers : g.Confers subjects subjectTeams cfg privilege
    · have hcaller := hconfers.ofCaller
      have hrole := hconfers.carrying
      by_cases horg : g.scopeType = "org"
      · have hwide : OrgWide subjects subjectTeams cfg privilege (g :: grants) :=
          ⟨g, List.mem_cons_self, hconfers, horg⟩
        simpa [walkGrants, hcaller, hrole, horg] using RoleDecision.Tells.clamp hwide
      · by_cases hproject : g.scopeType = "project"
        · cases hpid : parseUuid g.scopeId with
          | none =>
            have hwalk := @ih scopes
            simp only [walkGrants, hcaller, hrole, hproject, hpid]
            refine hwalk.congr ?_ ?_
            · simp [orgWide_cons, horg]
            · intro pid
              simp [inProject_cons, hpid]
          | some pid =>
            have hwalk := @ih (scopes ++ [pid])
            simp only [walkGrants, hcaller, hrole, hproject, hpid]
            refine hwalk.congr ?_ ?_
            · simp [orgWide_cons, horg]
            · intro other
              simp only [List.mem_append, List.mem_singleton, inProject_cons,
                hconfers, hproject, hpid, Option.some.injEq, true_and, or_assoc,
                eq_comm]
        · have hwalk := @ih scopes
          simp only [walkGrants, hcaller, hrole, horg, hproject]
          refine hwalk.congr ?_ ?_
          · simp [orgWide_cons, horg]
          · intro pid
            simp [inProject_cons, hproject]
    · rw [walkGrants_skip hconfers]
      refine (@ih scopes).congr ?_ ?_
      · simp [orgWide_cons, hconfers]
      · intro pid
        simp [inProject_cons, hconfers]

/-- What is decided under the model `roles`. -/
theorem decide_tells (hmodel : cfg.model = "roles") :
    (StudioAuthz.decide parseUuid subjects (.found cfg) subjectTeams privilege).Tells
      (OrgWide subjects subjectTeams cfg privilege cfg.grants)
      (InProject parseUuid subjects subjectTeams cfg privilege cfg.grants) := by
  have hwalk : (walkGrants parseUuid subjects subjectTeams cfg privilege [] cfg.grants).Tells
        (OrgWide subjects subjectTeams cfg privilege cfg.grants)
        (fun pid =>
          pid ∈ [] ∨ InProject parseUuid subjects subjectTeams cfg privilege cfg.grants pid) :=
    walkGrants_tells
  simp only [StudioAuthz.decide, hmodel, ne_eq, not_true_eq_false, if_false]
  exact hwalk.congr Iff.rfl (by simp)

theorem decide_of_model (hmodel : cfg.model ≠ "roles") :
    StudioAuthz.decide parseUuid subjects (.found cfg) subjectTeams privilege = .clamp := by
  simp [StudioAuthz.decide, hmodel]

section

variable (hroles : cfg'.roles = cfg.roles)
include hroles

theorem GrantDef.Confers.of_roles (h : g.Confers subjects subjectTeams cfg privilege) :
    g.Confers subjects subjectTeams cfg' privilege := by
  refine ⟨h.ofCaller, ?_⟩
  have hcarrying := h.carrying
  simpa [GrantDef.roleHas, AccessConfig.roleCarries, hroles] using hcarrying

theorem OrgWide.mono (hsub : grants ⊆ grants')
    (h : OrgWide subjects subjectTeams cfg privilege grants) :
    OrgWide subjects subjectTeams cfg' privilege grants' := by
  obtain ⟨g, hmem, hconfers, horg⟩ := h
  exact ⟨g, hsub hmem, hconfers.of_roles hroles, horg⟩

theorem InProject.mono (hsub : grants ⊆ grants')
    (h : InProject parseUuid subjects subjectTeams cfg privilege grants pid) :
    InProject parseUuid subjects subjectTeams cfg' privilege grants' pid := by
  obtain ⟨g, hmem, hconfers, hproject⟩ := h
  exact ⟨g, hsub hmem, hconfers.of_roles hroles, hproject⟩

/-- What is conferred does not depend on the order of the grants. -/
theorem orgWide_perm (hperm : grants.Perm grants') :
    OrgWide subjects subjectTeams cfg privilege grants ↔
      OrgWide subjects subjectTeams cfg' privilege grants' :=
  ⟨OrgWide.mono hroles hperm.subset, OrgWide.mono hroles.symm hperm.symm.subset⟩

theorem inProject_perm (hperm : grants.Perm grants') :
    InProject parseUuid subjects subjectTeams cfg privilege grants pid ↔
      InProject parseUuid subjects subjectTeams cfg' privilege grants' pid :=
  ⟨InProject.mono hroles hperm.subset, InProject.mono hroles.symm hperm.symm.subset⟩

end

end Conferring

end StudioAuthz
end StudioWeb
