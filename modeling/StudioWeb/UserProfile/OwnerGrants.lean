import StudioWeb.Library.DistinctBy
import StudioWeb.StudioAuthz.AccessConfig

/-!
# The owner grants of an access document
-/

namespace StudioWeb
namespace UserProfile

open StudioAuthz List

/-- The Studio privilege catalogue. -/
def PRIVILEGES : List String :=
  ["people.view", "people.invite", "people.manage", "access.manage", "connector.view",
    "connector.manage", "secret.view", "secret.manage", "document.view", "document.edit",
    "session.open", "domain.view", "domain.edit", "domain.model", "component.registry",
    "environment.manage", "cost.view", "cost.manage"]

/-- The role ladder a fresh organization is seeded with. -/
def defaultRoles : List RoleDef :=
  [⟨ROLE_OWNER, PRIVILEGES⟩, ⟨"admin", PRIVILEGES.filter fun p => p != "access.manage"⟩,
    ⟨"editor", ["people.view", "document.view", "document.edit", "connector.view",
      "secret.view", "session.open", "domain.view", "domain.edit"]⟩,
    ⟨"viewer", PRIVILEGES.filter fun p => endsWith p ".view"⟩]

/-- The document of an organization that has none. -/
def freshDocument : AccessConfig := ⟨"tenant", defaultRoles, []⟩

def isOwnerGrant (g : GrantDef) : Bool :=
  g.subjectType == "member" && g.roleKey == ROLE_OWNER && g.scopeType == "org"

/-- Give a person the organization-wide owner grant, or take it away. -/
def setOwnerGrant (cfg : AccessConfig) (tenantId key : String) (legacyKeys : List String)
    (owner : Bool) : AccessConfig :=
  { cfg with
    roles := if cfg.roles.isEmpty then defaultRoles else cfg.roles
    grants :=
      (cfg.grants.filter fun g =>
        !(isOwnerGrant g && (g.subjectId == key || legacyKeys.contains g.subjectId))) ++
      if owner then [⟨"member", key, ROLE_OWNER, "org", tenantId⟩] else [] }

/-- What makes two grants the same. -/
def grantKey (g : GrantDef) : String × String × String × String × String :=
  (g.subjectType, g.subjectId, g.roleKey, g.scopeType,
    if g.scopeType = "org" then "" else g.scopeId)

/-- A grant on the key that `rekey` gives it. -/
def rekeyed (rekey : String → Option String) (g : GrantDef) : GrantDef :=
  if g.subjectType = "member" then
    match rekey g.subjectId with
    | some key => { g with subjectId := key }
    | none => g
  else
    g

/-- Point every member grant of a document at the key `rekey` gives it, and how many
grants changed. -/
def rekeyMemberGrants (cfg : AccessConfig) (rekey : String → Option String) : AccessConfig × Nat :=
  let grants := cfg.grants.map (rekeyed rekey)
  let changed := (cfg.grants.filter fun g => rekeyed rekey g != g).length
  let kept := distinctBy grantKey grants
  ({ cfg with grants := kept }, changed + (grants.length - kept.length))

def OwnerGrant (cfg : AccessConfig) (key : String) : Prop :=
  ∃ g ∈ cfg.grants, isOwnerGrant g = true ∧ g.subjectId = key

section Grants

variable
  {cfg : AccessConfig}
  {tenantId key other : String}
  {legacyKeys subjects : List String}
  {owner : Bool}
  {rekey : String → Option String}

theorem owns_iff : cfg.owns subjects = true ↔ ∃ key ∈ subjects, OwnerGrant cfg key := by
  simp only [AccessConfig.owns, any_eq_true, OwnerGrant, isOwnerGrant,
    Bool.and_eq_true, beq_iff_eq, contains_iff_mem]
  constructor
  · rintro ⟨g, hg, ⟨⟨htype, hsubject⟩, hrole⟩, hscope⟩
    exact ⟨g.subjectId, hsubject, g, hg, ⟨⟨htype, hrole⟩, hscope⟩, rfl⟩
  · rintro ⟨_, hsubject, g, hg, ⟨⟨htype, hrole⟩, hscope⟩, rfl⟩
    exact ⟨g, hg, ⟨⟨htype, hsubject⟩, hrole⟩, hscope⟩

/-- Which keys hold the owner grant after it is set. -/
theorem ownerGrant_setOwnerGrant :
    OwnerGrant (setOwnerGrant cfg tenantId key legacyKeys owner) other ↔
      (other = key ∧ owner = true) ∨
        (OwnerGrant cfg other ∧ other ≠ key ∧ other ∉ legacyKeys) := by
  constructor
  · rintro ⟨g, hg, howner, rfl⟩
    rcases mem_append.mp hg with hkept | hadded
    · obtain ⟨hold, hkeeps⟩ := mem_filter.mp hkept
      simp only [howner, Bool.true_and, Bool.not_eq_true', Bool.or_eq_false_iff,
        beq_eq_false_iff_ne, ne_eq] at hkeeps
      refine .inr ⟨⟨g, hold, howner, rfl⟩, hkeeps.1, ?_⟩
      simpa using hkeeps.2
    · cases owner with
      | true =>
        rw [if_pos rfl, mem_singleton] at hadded
        subst hadded
        exact .inl ⟨rfl, rfl⟩
      | false => cases hadded
  · rintro (⟨rfl, rfl⟩ | ⟨⟨g, hg, howner, rfl⟩, hkey, hlegacy⟩)
    · exact ⟨⟨"member", other, ROLE_OWNER, "org", tenantId⟩,
        mem_append_right _ (by simp), by simp [isOwnerGrant], rfl⟩
    · refine ⟨g, mem_append_left _ (mem_filter.mpr ⟨hg, ?_⟩), howner, rfl⟩
      simp [hkey, hlegacy]

theorem isOwnerGrant_rekeyed (g : GrantDef) : isOwnerGrant (rekeyed rekey g) = isOwnerGrant g := by
  unfold rekeyed
  split
  · split
    · rfl
    · rfl
  · rfl

theorem subjectId_rekeyed {g : GrantDef} (howner : isOwnerGrant g = true) :
    (rekeyed rekey g).subjectId = (rekey g.subjectId).getD g.subjectId := by
  have htype : g.subjectType = "member" := by
    simp only [isOwnerGrant, Bool.and_eq_true, beq_iff_eq] at howner
    exact howner.1.1
  unfold rekeyed
  rw [if_pos htype]
  cases hrekey : rekey g.subjectId with
  | none => rfl
  | some => rfl

theorem isOwnerGrant_of_grantKey {g h : GrantDef} (hkey : grantKey g = grantKey h) :
    isOwnerGrant g = isOwnerGrant h ∧ g.subjectId = h.subjectId := by
  simp only [grantKey, Prod.mk.injEq] at hkey
  obtain ⟨htype, hsubject, hrole, hscope, _⟩ := hkey
  simp [isOwnerGrant, htype, hsubject, hrole, hscope]

/-- Which keys hold the owner grant after the member grants are pointed at other keys. -/
theorem ownerGrant_rekeyMemberGrants :
    OwnerGrant (rekeyMemberGrants cfg rekey).1 other ↔
      ∃ key, OwnerGrant cfg key ∧ (rekey key).getD key = other := by
  constructor
  · rintro ⟨g, hg, howner, rfl⟩
    obtain ⟨old, hold, rfl⟩ := mem_map.mp (mem_of_mem_distinctBy hg)
    rw [isOwnerGrant_rekeyed] at howner
    exact ⟨old.subjectId, ⟨old, hold, howner, rfl⟩, (subjectId_rekeyed howner).symm⟩
  · rintro ⟨_, ⟨old, hold, howner, rfl⟩, rfl⟩
    have hmem : grantKey (rekeyed rekey old) ∈
        (distinctBy grantKey (cfg.grants.map (rekeyed rekey))).map grantKey :=
      mem_map_distinctBy.mpr (mem_map_of_mem (mem_map_of_mem hold))
    obtain ⟨g, hg, hkey⟩ := mem_map.mp hmem
    obtain ⟨hsame, hsubject⟩ := isOwnerGrant_of_grantKey hkey
    refine ⟨g, hg, ?_, ?_⟩
    · rw [hsame, isOwnerGrant_rekeyed, howner]
    · rw [hsubject, subjectId_rekeyed howner]

theorem not_ownerGrant_of_unchanged (hunchanged : (rekeyMemberGrants cfg rekey).2 = 0)
    (hrekey : rekey key = some other) (hne : other ≠ key) : ¬ OwnerGrant cfg key := by
  rintro ⟨g, hg, howner, rfl⟩
  have hnone : (cfg.grants.filter fun g => rekeyed rekey g != g) = [] := by
    simp only [rekeyMemberGrants, Nat.add_eq_zero_iff, length_eq_zero_iff] at hunchanged
    exact hunchanged.1
  have hsame := filter_eq_nil_iff.mp hnone g hg
  simp only [bne_iff_ne, ne_eq, not_not] at hsame
  have hsubject := @subjectId_rekeyed rekey g howner
  rw [hsame, hrekey] at hsubject
  exact hne hsubject.symm

end Grants

end UserProfile
end StudioWeb
