import StudioWeb.StudioAuthz.RoleRows
import StudioWeb.UserProfile.OwnerGrants

/-!
# Rekeying moves grants and keeps authority

The PDP asks with every key of a person, so its answers stay while documents are rekeyed.
-/

namespace StudioWeb
namespace StudioAuthz

open List Scheduler
open UserProfile (grantKey rekeyed rekeyMemberGrants)

/-- A caller holds a key if and only if he holds what it is rekeyed to. -/
structure KeyMove (subjects : List String) where
  rekey : String → Option String
  closed : ∀ key, subjects.contains ((rekey key).getD key) = subjects.contains key

/-- The document, once `rekey_grants_in` is done with it or before. -/
def rekeyedRead (rekey : String → Option String) : Bool → ConfigRead → ConfigRead
  | true, .found cfg => .found (rekeyMemberGrants cfg rekey).1
  | _, read => read

/-- What a decision about the holder of `subjects` sees of a grant. -/
def heldAs (subjects : List String) (g : GrantDef) : Bool × String × String × String :=
  ((grantKey g).1 == "member" && subjects.contains (grantKey g).2.1, (grantKey g).2.2)

section Rekeyed

variable {parseUuid : String → Option Uuid} {subtree : Uuid → Uuid → Prop} {privilege : String}
  {subjects : List String} {cfg : AccessConfig} {reads : Reads} {request : EvaluationRequest}
  {row : Row}

theorem confers_of_heldAs {g h : GrantDef}
    (hsame : heldAs subjects g = heldAs subjects h)
    (hconfers : g.Confers subjects [] cfg privilege) : h.Confers subjects [] cfg privilege := by
  obtain ⟨hcaller, hrole⟩ := hconfers
  constructor
  · by_cases hmember : g.subjectType = "member" <;>
      simp_all [heldAs, grantKey, GrantDef.subjectMatches]
  · simp_all [heldAs, grantKey, GrantDef.roleHas]

variable (move : KeyMove subjects)

theorem heldAs_rekeyed (g : GrantDef) :
    heldAs subjects (rekeyed move.rekey g) = heldAs subjects g := by
  have hkey := move.closed g.subjectId
  unfold heldAs grantKey rekeyed
  split
  · cases hrekey : move.rekey g.subjectId with
    | none => rfl
    | some => simp_all
  · rfl

theorem exists_rekeyed_iff {p : GrantDef → Prop}
    (hp : ∀ g h, heldAs subjects g = heldAs subjects h → p g → p h) :
    (∃ g ∈ (rekeyMemberGrants cfg move.rekey).1.grants, p g) ↔ ∃ g ∈ cfg.grants, p g := by
  constructor
  · rintro ⟨g, hg, hpg⟩
    obtain ⟨old, hold, rfl⟩ := mem_map.mp (mem_of_mem_distinctBy hg)
    exact ⟨old, hold, hp _ _ (heldAs_rekeyed move old) hpg⟩
  · rintro ⟨old, hold, hpold⟩
    obtain ⟨g, hg, hsame⟩ := mem_map.mp
      (mem_map_distinctBy.mpr (mem_map_of_mem (f := grantKey) (mem_map_of_mem hold)))
    refine ⟨g, hg, hp old g ?_ hpold⟩
    rw [← heldAs_rekeyed move old, heldAs, heldAs, hsame]

theorem any_rekeyed {p : GrantDef → Bool}
    (hp : ∀ g h, heldAs subjects g = heldAs subjects h → p g = p h) :
    (rekeyMemberGrants cfg move.rekey).1.grants.any p = cfg.grants.any p := by
  rw [Bool.eq_iff_iff, any_eq_true, any_eq_true]
  exact exists_rekeyed_iff move fun g h hsame hpg => hp g h hsame ▸ hpg

theorem mayWrite_rekeyed (done : Bool) (read : ConfigRead) :
    mayWriteAccessConfig subjects (rekeyedRead move.rekey done read) =
      mayWriteAccessConfig subjects read := by
  cases done with
  | false => rfl
  | true =>
    cases read with
    | absent => rfl
    | unreadable => rfl
    | found cfg =>
      have howns : (rekeyMemberGrants cfg move.rekey).1.owns subjects = cfg.owns subjects :=
        any_rekeyed move fun g h hsame => by simp_all [heldAs, grantKey]
      have howner : (rekeyMemberGrants cfg move.rekey).1.hasAnOwner = cfg.hasAnOwner :=
        any_rekeyed move fun g h hsame => by simp_all [heldAs, grantKey]
      have hgrants :
          (rekeyMemberGrants cfg move.rekey).1.grantsOrgPrivilege subjects "access.manage" =
            cfg.grantsOrgPrivilege subjects "access.manage" :=
        any_rekeyed move fun g h hsame => by
          simp_all [heldAs, grantKey, AccessConfig.roleCarries, rekeyMemberGrants]
      simp only [rekeyedRead, mayWriteAccessConfig, howns, howner, hgrants]
      rfl

theorem tells_rekeyed (hmodel : cfg.model = "roles") :
    (StudioAuthz.decide parseUuid subjects (.found (rekeyMemberGrants cfg move.rekey).1) []
      privilege).Tells
      (OrgWide subjects [] cfg privilege cfg.grants)
      (InProject parseUuid subjects [] cfg privilege cfg.grants) := by
  have hroles : cfg.roles = (rekeyMemberGrants cfg move.rekey).1.roles := rfl
  refine (@decide_tells parseUuid subjects [] (rekeyMemberGrants cfg move.rekey).1 privilege
    hmodel).congr ?_ fun pid => ?_
  · refine (orgWide_perm hroles (.refl _)).trans (exists_rekeyed_iff move ?_)
    rintro g h hsame ⟨hconfers, horg⟩
    exact ⟨confers_of_heldAs hsame hconfers, by simp_all [heldAs, grantKey]⟩
  · refine (inProject_perm hroles (.refl _)).trans (exists_rekeyed_iff move ?_)
    rintro g h hsame ⟨hconfers, hproject, hpid⟩
    refine ⟨confers_of_heldAs hsame hconfers, ?_⟩
    simp only [heldAs, grantKey, Prod.mk.injEq] at hsame
    obtain ⟨_, _, hscope, hid⟩ := hsame
    rw [← hscope, hproject, if_neg (by decide), if_neg (by decide)] at hid
    exact ⟨hscope ▸ hproject, hid ▸ hpid⟩

theorem allows_rekeyed {tid : Uuid} (done : Bool) (read : ConfigRead) :
    (answerRoles reads request tid (StudioAuthz.decide parseUuid subjects
        (rekeyedRead move.rekey done read) [] privilege)).Allows subtree request row ↔
      (answerRoles reads request tid (StudioAuthz.decide parseUuid subjects
        read [] privilege)).Allows subtree request row := by
  cases done with
  | false => rfl
  | true =>
    cases read with
    | absent => rfl
    | unreadable => rfl
    | found cfg =>
      by_cases hmodel : cfg.model = "roles"
      · rw [allows_answerRoles (decide_tells hmodel)]
        exact allows_answerRoles (tells_rekeyed move hmodel)
      · have hother : (rekeyMemberGrants cfg move.rekey).1.model ≠ "roles" := hmodel
        rw [rekeyedRead, decide_of_model hmodel, decide_of_model hother]

end Rekeyed

end StudioAuthz
end StudioWeb
