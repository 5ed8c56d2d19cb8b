import StudioWeb.UserProfile.OwnerView

/-!
# What the changes keep of owners and their grants
-/

namespace StudioWeb
namespace UserProfile

open Function
open StudioAuthz (AccessConfig)
open OrgWorld (mergedKey)

section OwnerInvariant

variable
  {v t : OwnerView}
  {n k : Nat}
  {g h g' : GrantMerge}
  {user other org place : Uuid}
  {row : Option MembershipRow}

namespace OwnerInv

section

variable (hinv : OwnerInv v)
include hinv

/-- A row of a person that no merge takes, in an organization for which the grant is with
the owner again or is still to be set. -/
theorem setRow (htaken : org ≠ PLATFORM_ROOT_TENANT_ID → ¬ v.Taken user)
    (hpending : ∀ k owner, v.pending k = some (user, org, owner) → (owner = true ↔ OwnerRow row))
    (hagrees : org ≠ PLATFORM_ROOT_TENANT_ID →
      v.Pends user org ∨ (v.Owns user org ↔ OwnerRow row)) :
    OwnerInv (v.setRow user org row) := by
  have hother : ∀ person place, (person, place) ≠ (user, org) →
      ((v.setRow user org row).IsOwner person place ↔ v.IsOwner person place) := by
    intro person place hne
    exact isOwner_congr (get?_setRow_of_ne hne)
  refine ⟨hinv.rootless, ?_, ?_, hinv.idle, hinv.one, ?_⟩
  · intro n person place owner hn
    by_cases heq : (person, place) = (user, org)
    · cases heq
      exact (hpending n owner hn).trans isOwner_setRow_self.symm
    · exact (hinv.target n person place owner hn).trans (hother person place heq).symm
  · intro person place hroot
    by_cases heq : (person, place) = (user, org)
    · cases heq
      rcases hagrees hroot with hpends | hsame
      · exact .inl hpends
      · exact .inr (.inr (hsame.trans isOwner_setRow_self.symm))
    · rcases hinv.agrees person place hroot with hpends | htakes | hsame
      · exact .inl hpends
      · exact .inr (.inl htakes)
      · exact .inr (.inr (hsame.trans (hother person place heq).symm))
  · intro n g hn
    refine (hinv.merge n g hn).congr (fun _ _ _ _ => Iff.rfl) (fun _ _ hnamed => hnamed) ?_
      (hinv.merge n g hn).onlyText
    intro person place htakes hroot
    refine get?_setRow_of_ne ?_
    intro heq
    cases heq
    exact htaken hroot ⟨n, g, hn, htakes⟩

theorem writes {owner : Bool} (hroot : org ≠ PLATFORM_ROOT_TENANT_ID)
    (howner : owner = true ↔ OwnerRow row) (hfree : v.pending n = none) (htaken : ¬ v.Taken user)
    (hpending : ∀ k other, v.pending k = some (user, org, other) → other = owner) :
    OwnerInv ((v.setRow user org row).setPending n (some (user, org, owner))) := by
  have hpends : ∀ person place, v.Pends person place →
      ((v.setRow user org row).setPending n (some (user, org, owner))).Pends person place := by
    rintro person place ⟨k, other, hk⟩
    have hne : k ≠ n := by
      rintro rfl
      rw [hfree] at hk
      cases hk
    exact ⟨k, other, (update_of_ne hne _ _).trans hk⟩
  have hcases : ∀ k person place other,
      ((v.setRow user org row).setPending n (some (user, org, owner))).pending k =
        some (person, place, other) → (person = user ∧ place = org ∧ other = owner) ∨
        v.pending k = some (person, place, other) := by
    intro k person place other hk
    by_cases hkn : k = n
    · subst hkn
      simp only [OwnerView.setPending, update_self, Option.some.injEq, Prod.mk.injEq] at hk
      exact .inl ⟨hk.1.symm, hk.2.1.symm, hk.2.2.symm⟩
    · simp only [OwnerView.setPending, update_of_ne hkn] at hk
      exact .inr hk
  have hother : ∀ person place, (person, place) ≠ (user, org) →
      ((v.setRow user org row).IsOwner person place ↔ v.IsOwner person place) := by
    intro person place hne
    exact isOwner_congr (get?_setRow_of_ne hne)
  have htarget : ∀ k person place other, v.pending k = some (person, place, other) →
      (other = true ↔ (v.setRow user org row).IsOwner person place) := by
    intro k person place other hk
    by_cases heq : (person, place) = (user, org)
    · cases heq
      rw [hpending k other hk, isOwner_setRow_self]
      exact howner
    · rw [hother person place heq]
      exact hinv.target k person place other hk
  refine ⟨?_, ?_, ?_, ?_, hinv.one, ?_⟩
  · intro k person place other hk
    rcases hcases k person place other hk with ⟨_, rfl, _⟩ | hold
    · exact hroot
    · exact hinv.rootless k person place other hold
  · intro k person place other hk
    rcases hcases k person place other hk with ⟨rfl, rfl, rfl⟩ | hold
    · exact howner.trans isOwner_setRow_self.symm
    · exact htarget k person place other hold
  · intro person place hplace
    by_cases heq : (person, place) = (user, org)
    · cases heq
      exact .inl ⟨n, owner, update_self ..⟩
    · rcases hinv.agrees person place hplace with hold | htakes | hsame
      · exact .inl (hpends person place hold)
      · exact .inr (.inl htakes)
      · exact .inr (.inr (hsame.trans (hother person place heq).symm))
  · rintro person place htakes ⟨k, other, hk⟩
    rcases hcases k person place other hk with ⟨rfl, _⟩ | hold
    · exact htaken htakes
    · exact hinv.idle person place htakes ⟨k, other, hold⟩
  · intro k g hk
    refine (hinv.merge k g hk).congr (fun _ _ _ _ => Iff.rfl) (fun _ _ hnamed => hnamed) ?_
      (hinv.merge k g hk).onlyText
    intro person place htakes _
    refine get?_setRow_of_ne ?_
    intro heq
    cases heq
    exact htaken ⟨k, g, hk, htakes⟩

omit hinv in
theorem ownerGrant_getD {key : String} :
    OwnerGrant ((v.documents org).getD freshDocument) key ↔ v.Names org key := by
  cases hdoc : v.documents org with
  | none =>
    constructor
    · rintro ⟨g, hg, _⟩
      cases hg
    · rintro ⟨document, hdocument, _⟩
      rw [hdoc] at hdocument
      cases hdocument
  | some =>
    simp [OwnerView.Names, hdoc]

theorem syncs {owner : Bool} {legacyKeys : List String}
    (hcall : v.pending n = some (user, org, owner))
    (hkeys : ∀ key, key ∈ v.keys user ↔ key = user.text ∨ key ∈ legacyKeys)
    (hshared : ∀ other, other ≠ user → ∀ key ∈ v.keys other, key ∉ v.keys user) :
    OwnerInv ((v.setDocument org (setOwnerGrant ((v.documents org).getD freshDocument) org.text
        user.text legacyKeys owner)).setPending n none) := by
  have hnames : ∀ place key,
      (v.setDocument org (setOwnerGrant ((v.documents org).getD freshDocument) org.text
        user.text legacyKeys owner)).Names place key ↔
      if place = org then
        (key = user.text ∧ owner = true) ∨ (v.Names org key ∧ key ∉ v.keys user)
      else
        v.Names place key := by
    intro place key
    rw [names_setDocument, ownerGrant_setOwnerGrant, ownerGrant_getD, hkeys key, not_or]
  have hself : user.text ∈ v.keys user := (hkeys user.text).mpr (.inl rfl)
  have hothers : ∀ person place, person ≠ user →
      ((v.setDocument org (setOwnerGrant ((v.documents org).getD freshDocument) org.text
        user.text legacyKeys owner)).Owns person place ↔ v.Owns person place) := by
    intro person place hne
    constructor
    · rintro ⟨key, hkey, hnamed⟩
      rw [hnames] at hnamed
      split at hnamed
      · next hplace =>
        rcases hnamed with ⟨rfl, _⟩ | ⟨hold, _⟩
        · exact absurd hself (hshared person hne _ hkey)
        · exact ⟨key, hkey, hplace ▸ hold⟩
      · exact ⟨key, hkey, hnamed⟩
    · rintro ⟨key, hkey, hnamed⟩
      refine ⟨key, hkey, (hnames place key).mpr ?_⟩
      split
      · next hplace => exact .inr ⟨hplace ▸ hnamed, hshared person hne key hkey⟩
      · exact hnamed
  have hset : (v.setDocument org (setOwnerGrant ((v.documents org).getD freshDocument) org.text
        user.text legacyKeys owner)).Owns user org ↔ owner = true := by
    constructor
    · rintro ⟨key, hkey, hnamed⟩
      rw [hnames, if_pos rfl] at hnamed
      rcases hnamed with ⟨_, howner⟩ | ⟨_, hout⟩
      · exact howner
      · exact absurd hkey hout
    · intro howner
      refine ⟨user.text, hself, (hnames org _).mpr ?_⟩
      rw [if_pos rfl]
      exact .inl ⟨rfl, howner⟩
  have helsewhere : ∀ place, place ≠ org →
      ((v.setDocument org (setOwnerGrant ((v.documents org).getD freshDocument) org.text
        user.text legacyKeys owner)).Owns user place ↔ v.Owns user place) := by
    intro place hne
    simp only [OwnerView.Owns, hnames, if_neg hne]
    rfl
  have hold : ∀ k person place other,
      ((v.setDocument org (setOwnerGrant ((v.documents org).getD freshDocument) org.text
        user.text legacyKeys owner)).setPending n none).pending k = some (person, place, other) →
      v.pending k = some (person, place, other) := by
    intro k person place other hk
    by_cases hkn : k = n
    · subst hkn
      simp [OwnerView.setPending] at hk
    · exact (update_of_ne hkn _ _).symm.trans hk
  refine ⟨?_, ?_, ?_, ?_, hinv.one, ?_⟩
  · intro k person place other hk
    exact hinv.rootless k person place other (hold k person place other hk)
  · intro k person place other hk
    exact hinv.target k person place other (hold k person place other hk)
  · intro person place hplace
    by_cases heq : person = user ∧ place = org
    · obtain ⟨rfl, rfl⟩ := heq
      exact .inr (.inr (hset.trans (hinv.target n _ _ owner hcall)))
    · rcases hinv.agrees person place hplace with ⟨k, other, hk⟩ | htakes | hsame
      · have hkn : k ≠ n := by
          rintro rfl
          rw [hcall] at hk
          cases hk
          exact heq ⟨rfl, rfl⟩
        exact .inl ⟨k, other, (update_of_ne hkn _ _).trans hk⟩
      · exact .inr (.inl htakes)
      · by_cases hperson : person = user
        · subst hperson
          have hne : place ≠ org := fun hsameOrg => heq ⟨rfl, hsameOrg⟩
          exact .inr (.inr ((helsewhere place hne).trans hsame))
        · exact .inr (.inr ((hothers person place hperson).trans hsame))
  · rintro person place htakes ⟨k, other, hk⟩
    exact hinv.idle person place htakes ⟨k, other, hold k person place other hk⟩
  · intro k g hk
    have hpeople : ∀ person, g.Takes person → person ≠ user := by
      rintro person htakes rfl
      exact hinv.idle person org ⟨k, g, hk, htakes⟩ ⟨n, owner, hcall⟩
    refine (hinv.merge k g hk).congr ?_ ?_ (fun _ _ _ _ => rfl) (hinv.merge k g hk).onlyText
    · intro person place htakes _
      exact hothers person place (hpeople person htakes)
    · intro place _ hnamed
      have hnamed' := (hnames place g.fromUser.text).mp hnamed
      split at hnamed'
      · next hplace =>
        rcases hnamed' with ⟨htext, _⟩ | ⟨hbefore, _⟩
        · exact absurd (Uuid.ext_text htext) (hpeople g.fromUser (.inl rfl))
        · exact hplace ▸ hbefore
      · exact hnamed'

theorem links {subject : String} {keys : Uuid → List String}
    (hkeys : ∀ other key, key ∈ keys other ↔ key ∈ v.keys other ∨ (other = user ∧ key = subject))
    (hunnamed : ∀ org, org ≠ PLATFORM_ROOT_TENANT_ID → ¬ v.Names org subject)
    (hgone : ∀ n g, v.merges n = some g → g.stage = .rekeying → user ≠ g.fromUser) :
    OwnerInv { v with keys := keys } := by
  have howns : ∀ person place, place ≠ PLATFORM_ROOT_TENANT_ID →
      (OwnerView.Owns { v with keys := keys } person place ↔ v.Owns person place) := by
    intro person place hplace
    constructor
    · rintro ⟨key, hkey, hnamed⟩
      rcases (hkeys person key).mp hkey with hold | ⟨_, rfl⟩
      · exact ⟨key, hold, hnamed⟩
      · exact absurd hnamed (hunnamed place hplace)
    · rintro ⟨key, hkey, hnamed⟩
      exact ⟨key, (hkeys person key).mpr (.inl hkey), hnamed⟩
  refine ⟨hinv.rootless, hinv.target, ?_, hinv.idle, hinv.one, ?_⟩
  · intro person place hplace
    rcases hinv.agrees person place hplace with hpends | htakes | hsame
    · exact .inl hpends
    · exact .inr (.inl htakes)
    · exact .inr (.inr ((howns person place hplace).trans hsame))
  · intro n g hn
    refine (hinv.merge n g hn).congr (fun person place _ hplace => howns person place hplace)
      (fun _ _ hnamed => hnamed) (fun _ _ _ _ => rfl) fun hstage => ?_
    intro key hkey
    rcases (hkeys g.fromUser key).mp hkey with hold | ⟨heq, _⟩
    · exact (hinv.merge n g hn).onlyText hstage key hold
    · exact absurd heq.symm (hgone n g hn hstage)

theorem begins (hstage : g.stage = .opening) (hfree : v.merges n = none)
    (hne : g.fromUser ≠ g.intoUser) (hself : g.fromUser.text ∈ v.keys g.fromUser)
    (htaken : ∀ user, g.Takes user → ¬ v.Taken user)
    (hidle : ∀ user org, g.Takes user → ¬ v.Pends user org)
    (horgs : ∀ org row, org ≠ PLATFORM_ROOT_TENANT_ID →
      v.memberships.get? (g.fromUser, org) = some row → org ∈ g.orgs) :
    OwnerInv (v.setMerge n (some g)) := by
  have hcases : ∀ k h, (v.setMerge n (some g)).merges k = some h →
      (k = n ∧ h = g) ∨ (k ≠ n ∧ v.merges k = some h) := by
    intro k h hk
    by_cases hkn : k = n
    · subst hkn
      simp only [OwnerView.setMerge, update_self, Option.some.injEq] at hk
      exact .inl ⟨rfl, hk.symm⟩
    · simp only [OwnerView.setMerge, update_of_ne hkn] at hk
      exact .inr ⟨hkn, hk⟩
  have hagrees : ∀ person place, g.Takes person → place ≠ PLATFORM_ROOT_TENANT_ID →
      (v.Owns person place ↔ v.IsOwner person place) := by
    intro person place htakes hplace
    rcases hinv.agrees person place hplace with hpends | htaken' | hsame
    · exact absurd hpends (hidle person place htakes)
    · exact absurd htaken' (htaken person htakes)
    · exact hsame
  refine ⟨hinv.rootless, hinv.target, ?_, ?_, ?_, ?_⟩
  · intro person place hplace
    rcases hinv.agrees person place hplace with hpends | ⟨k, h, hk, htakes⟩ | hsame
    · exact .inl hpends
    · have hkn : k ≠ n := by
        rintro rfl
        rw [hfree] at hk
        cases hk
      refine .inr (.inl ⟨k, h, ?_, htakes⟩)
      simpa only [OwnerView.setMerge, update_of_ne hkn] using hk
    · exact .inr (.inr hsame)
  · rintro person place ⟨k, h, hk, htakes⟩
    rcases hcases k h hk with ⟨_, rfl⟩ | ⟨_, hold⟩
    · exact hidle person place htakes
    · exact hinv.idle person place ⟨k, h, hold, htakes⟩
  · intro k l h h' person hk hl htakes htakes'
    rcases hcases k h hk with ⟨rfl, rfl⟩ | ⟨_, hold⟩
    · rcases hcases l h' hl with ⟨rfl, _⟩ | ⟨_, hold'⟩
      · rfl
      · exact absurd ⟨l, h', hold', htakes'⟩ (htaken person htakes)
    · rcases hcases l h' hl with ⟨rfl, rfl⟩ | ⟨_, hold'⟩
      · exact absurd ⟨k, h, hold, htakes⟩ (htaken person htakes')
      · exact hinv.one k l h h' person hold hold' htakes htakes'
  · intro k h hk
    rcases hcases k h hk with ⟨_, rfl⟩ | ⟨_, hold⟩
    · refine ⟨hne, ?_, ?_, ?_⟩
      · intro place hplace
        exact or_congr (hagrees _ place (.inl rfl) hplace) (hagrees _ place (.inr rfl) hplace)
      · intro place hplace hout hnamed
        have howner := (hagrees _ place (.inl rfl) hplace).mp ⟨_, hself, hnamed⟩
        obtain ⟨row, hrow, _⟩ := howner
        exact hout (horgs place row hplace hrow)
      · rw [hstage]
        trivial
    · exact (hinv.merge k h hold).congr (fun _ _ _ _ => Iff.rfl) (fun _ _ hnamed => hnamed)
        (fun _ _ _ _ => rfl) (hinv.merge k h hold).onlyText

omit hinv in
theorem merges_update (hmerges : t.merges = Function.update v.merges n (some g'))
    (hk : t.merges k = some h) : (k = n ∧ h = g') ∨ (k ≠ n ∧ v.merges k = some h) := by
  by_cases hkn : k = n
  · subst hkn
    rw [hmerges, update_self, Option.some.injEq] at hk
    exact .inl ⟨rfl, hk.symm⟩
  · rw [hmerges, update_of_ne hkn] at hk
    exact .inr ⟨hkn, hk⟩

section

variable (hmerge : v.merges n = some g)
include hmerge

section

variable (hpair : g'.fromUser = g.fromUser ∧ g'.intoUser = g.intoUser)
include hpair

theorem goesOn (hpending : t.pending = v.pending)
    (hmerges : t.merges = Function.update v.merges n (some g'))
    (hrows : ∀ user org, ¬ g.Takes user → org ≠ PLATFORM_ROOT_TENANT_ID →
      t.memberships.get? (user, org) = v.memberships.get? (user, org))
    (howns : ∀ user org, ¬ g.Takes user → org ≠ PLATFORM_ROOT_TENANT_ID →
      (t.Owns user org ↔ v.Owns user org))
    (hnames : ∀ user org, ¬ g.Takes user → org ≠ PLATFORM_ROOT_TENANT_ID →
      t.Names org user.text → v.Names org user.text)
    (hkeys : ∀ user, ¬ g.Takes user → ∀ key ∈ t.keys user, key ∈ v.keys user) (hok : MergeOk t g') :
    OwnerInv t := by
  have htakes : ∀ user, g'.Takes user ↔ g.Takes user := by
    intro user
    rw [GrantMerge.Takes, hpair.1, hpair.2, GrantMerge.Takes]
  have hbefore : ∀ k h, t.merges k = some h →
      ∃ h', v.merges k = some h' ∧ ∀ user, h.Takes user → h'.Takes user := by
    intro k h hk
    rcases merges_update hmerges hk with ⟨rfl, rfl⟩ | ⟨_, hold⟩
    · exact ⟨g, hmerge, fun user => (htakes user).mp⟩
    · exact ⟨h, hold, fun _ htaken => htaken⟩
  have htaken : ∀ user, t.Taken user → v.Taken user := by
    rintro user ⟨k, h, hk, huser⟩
    obtain ⟨h', hold, htakes'⟩ := hbefore k h hk
    exact ⟨k, h', hold, htakes' user huser⟩
  refine ⟨?_, ?_, ?_, ?_, ?_, ?_⟩
  · rw [hpending]
    exact hinv.rootless
  · intro k user org owner hk
    rw [hpending] at hk
    have hfree : ¬ g.Takes user := by
      intro htake
      exact hinv.idle user org ⟨n, g, hmerge, htake⟩ ⟨k, owner, hk⟩
    rw [isOwner_congr (hrows user org hfree (hinv.rootless k user org owner hk))]
    exact hinv.target k user org owner hk
  · intro user org hroot
    by_cases htake : g.Takes user
    · refine .inr (.inl ⟨n, g', ?_, (htakes user).mpr htake⟩)
      rw [hmerges, update_self]
    · rcases hinv.agrees user org hroot with ⟨k, owner, hk⟩ | ⟨k, h, hk, hother⟩ | hsame
      · exact .inl ⟨k, owner, by rw [hpending, hk]⟩
      · have hkn : k ≠ n := by
          rintro rfl
          rw [hmerge] at hk
          cases hk
          exact htake hother
        refine .inr (.inl ⟨k, h, ?_, hother⟩)
        rw [hmerges, update_of_ne hkn, hk]
      · refine .inr (.inr ?_)
        rw [howns user org htake hroot, isOwner_congr (hrows user org htake hroot)]
        exact hsame
  · rintro user org htake ⟨k, owner, hk⟩
    rw [hpending] at hk
    exact hinv.idle user org (htaken user htake) ⟨k, owner, hk⟩
  · intro k l h h' user hk hl htake htake'
    obtain ⟨p, hp, hpuser⟩ := hbefore k h hk
    obtain ⟨q, hq, hquser⟩ := hbefore l h' hl
    exact hinv.one k l p q user hp hq (hpuser user htake) (hquser user htake')
  · intro k h hk
    rcases merges_update hmerges hk with ⟨_, rfl⟩ | ⟨hkn, hold⟩
    · exact hok
    · have hfree : ∀ user, h.Takes user → ¬ g.Takes user := by
        intro user htake htake'
        exact hkn (hinv.one k n h g user hold hmerge htake htake')
      refine (hinv.merge k h hold).congr ?_ ?_ ?_ fun hstage key hkey => ?_
      · intro user org htake hroot
        exact howns user org (hfree user htake) hroot
      · intro org hroot
        exact hnames h.fromUser org (hfree _ (.inl rfl)) hroot
      · intro user org htake hroot
        exact hrows user org (hfree user htake) hroot
      · exact (hinv.merge k h hold).onlyText hstage key
          (hkeys h.fromUser (hfree _ (.inl rfl)) key hkey)

omit hpair in
theorem moves {keys : Uuid → List String} (hstage : g.stage ≠ .rekeying)
    (hother : ∀ other key, ¬ g.Takes other → (key ∈ keys other ↔ key ∈ v.keys other))
    (hunion : ∀ key, (key ∈ keys g.fromUser ∨ key ∈ keys g.intoUser) ↔
        (key ∈ v.keys g.fromUser ∨ key ∈ v.keys g.intoUser)) :
    OwnerInv { v with keys := keys } := by
  have hok := hinv.merge n g hmerge
  have htogether : ∀ org, (OwnerView.Owns { v with keys := keys } g.fromUser org ∨
        OwnerView.Owns { v with keys := keys } g.intoUser org) ↔
      (v.Owns g.fromUser org ∨ v.Owns g.intoUser org) := by
    intro org
    constructor
    · rintro (⟨key, hkey, hnamed⟩ | ⟨key, hkey, hnamed⟩)
      · exact ((hunion key).mp (.inl hkey)).imp (fun hold => ⟨key, hold, hnamed⟩)
          fun hold => ⟨key, hold, hnamed⟩
      · exact ((hunion key).mp (.inr hkey)).imp (fun hold => ⟨key, hold, hnamed⟩)
          fun hold => ⟨key, hold, hnamed⟩
    · rintro (⟨key, hkey, hnamed⟩ | ⟨key, hkey, hnamed⟩)
      · exact ((hunion key).mpr (.inl hkey)).imp (fun hnew => ⟨key, hnew, hnamed⟩)
          fun hnew => ⟨key, hnew, hnamed⟩
      · exact ((hunion key).mpr (.inr hkey)).imp (fun hnew => ⟨key, hnew, hnamed⟩)
          fun hnew => ⟨key, hnew, hnamed⟩
  refine hinv.goesOn hmerge ⟨rfl, rfl⟩ rfl ?_ (fun _ _ _ _ => rfl) ?_
    (fun _ _ _ _ hnamed => hnamed) ?_ ⟨hok.ne, ?_, hok.unnamed, ?_⟩
  · rw [← hmerge, update_eq_self]
  · intro user org hfree _
    simp only [OwnerView.Owns, hother user _ hfree]
    rfl
  · intro user hfree key hkey
    exact (hother user key hfree).mp hkey
  · intro org hroot
    rw [htogether org]
    exact hok.either org hroot
  · exact hok.stage.congr (fun _ _ _ _ => rfl) fun hrekeying => absurd hrekeying hstage

theorem goesTo (hok : MergeOk v g') :
    OwnerInv (v.setMerge n (some g')) := by
  refine hinv.goesOn hmerge hpair rfl rfl (fun _ _ _ _ => rfl) (fun _ _ _ _ => Iff.rfl)
    (fun _ _ _ _ hnamed => hnamed) (fun _ _ _ hkey => hkey) ⟨hok.ne, hok.either, hok.unnamed, ?_⟩
  exact hok.stage.congr (fun _ _ _ _ => rfl) hok.onlyText

omit hpair in
theorem lists {left : List (Uuid × MembershipRow)} (hleft : RowsLeft v g.fromUser left) :
    OwnerInv (v.setMerge n (some { g with stage := .rows left })) := by
  have hok := hinv.merge n g hmerge
  exact hinv.goesTo hmerge ⟨rfl, rfl⟩ ⟨hok.ne, hok.either, hok.unnamed, hleft⟩

theorem setsRow (horgs : g'.orgs = g.orgs)
    (huser : g.Takes user) (heither :
      org ≠ PLATFORM_ROOT_TENANT_ID → ((v.setRow user org row).IsOwner g.fromUser org ∨
            (v.setRow user org row).IsOwner g.intoUser org ↔
          v.IsOwner g.fromUser org ∨ v.IsOwner g.intoUser org))
    (hstage : StageOk ((v.setRow user org row).setMerge n (some g')) g' g'.stage) :
    OwnerInv ((v.setRow user org row).setMerge n (some g')) := by
  have hok := hinv.merge n g hmerge
  refine hinv.goesOn hmerge hpair rfl rfl ?_ (fun _ _ _ _ => Iff.rfl)
    (fun _ _ _ _ hnamed => hnamed) (fun _ _ _ hkey => hkey) ⟨?_, ?_, ?_, hstage⟩
  · intro person place hfree _
    refine get?_setRow_of_ne ?_
    rintro heq
    cases heq
    exact hfree huser
  · rw [hpair.1, hpair.2]
    exact hok.ne
  · intro place hroot
    rw [hpair.1, hpair.2]
    refine (hok.either place hroot).trans ?_
    by_cases hplace : place = org
    · subst hplace
      exact (heither hroot).symm
    · have hsame : ∀ person,
          ((v.setRow user org row).IsOwner person place ↔ v.IsOwner person place) := by
        intro person
        refine isOwner_congr (get?_setRow_of_ne ?_)
        simp [hplace]
      exact (or_congr (hsame g.fromUser) (hsame g.intoUser)).symm
  · intro place hroot hout
    rw [hpair.1]
    rw [horgs] at hout
    exact hok.unnamed place hroot hout

end

theorem records {row : Uuid × MembershipRow} {rest : List (Uuid × MembershipRow)}
    {new : MembershipRow}
    (hstage : g.stage = .rows (row :: rest)) (hnew : row.1 ≠ PLATFORM_ROOT_TENANT_ID →
      (new.isActiveOwner = true ↔ row.2.isActiveOwner = true) ∧
        (v.IsOwner g.intoUser row.1 → row.2.isActiveOwner = true)) :
    OwnerInv ((v.setRow g.intoUser row.1 (some new)).setMerge n
      (some { g with stage := .recorded row rest })) := by
  have hok := hinv.merge n g hmerge
  have hleft : RowsLeft v g.fromUser (row :: rest) := hok.stage_of hstage
  have hkey : ∀ org, (g.fromUser, org) ≠ (g.intoUser, row.1) := by
    intro org heq
    exact hok.ne (Prod.mk.inj heq).1
  have hrecorded : row.1 ≠ PLATFORM_ROOT_TENANT_ID →
      ((v.setRow g.intoUser row.1 (some new)).IsOwner g.intoUser row.1 ↔
        row.2.isActiveOwner = true) := by
    intro hroot
    rw [isOwner_setRow_self, ← (hnew hroot).1]
    simp [OwnerRow]
  refine hinv.setsRow hmerge ⟨rfl, rfl⟩ rfl (.inr rfl) ?_ ⟨?_, hrecorded⟩
  · intro hroot
    rw [isOwner_congr (get?_setRow_of_ne (hkey row.1)), hrecorded hroot, hleft.head hroot]
    constructor
    · rintro (howner | howner)
      · exact .inl howner
      · exact .inl howner
    · rintro (howner | howner)
      · exact .inl howner
      · exact .inr ((hnew hroot).2 howner)
  · have hrows : ∀ org, (v.setRow g.intoUser row.1 (some new)).memberships.get? (g.fromUser, org) =
        v.memberships.get? (g.fromUser, org) := fun org => get?_setRow_of_ne (hkey org)
    exact hleft.congr fun org _ => hrows org

theorem removes {row : Uuid × MembershipRow} {rest : List (Uuid × MembershipRow)}
    (hstage : g.stage = .recorded row rest) :
    OwnerInv ((v.setRow g.fromUser row.1 none).setMerge n
      (some { g with stage := .rows rest })) := by
  have hok := hinv.merge n g hmerge
  obtain ⟨hleft, hrecorded⟩ : RowsLeft v g.fromUser (row :: rest) ∧
      (row.1 ≠ PLATFORM_ROOT_TENANT_ID →
        (v.IsOwner g.intoUser row.1 ↔ row.2.isActiveOwner = true)) :=
    hok.stage_of hstage
  refine hinv.setsRow hmerge ⟨rfl, rfl⟩ rfl (.inl rfl) ?_ hleft.tail
  intro hroot
  have hinto : (v.setRow g.fromUser row.1 none).IsOwner g.intoUser row.1 ↔
      v.IsOwner g.intoUser row.1 := by
    refine isOwner_congr (get?_setRow_of_ne ?_)
    intro heq
    exact hok.ne (Prod.mk.inj heq).1.symm
  have hgone : ¬ (v.setRow g.fromUser row.1 none).IsOwner g.fromUser row.1 := by
    rw [isOwner_setRow_self]
    rintro ⟨r, hr, _⟩
    cases hr
  rw [hinto, hleft.head hroot, hrecorded hroot]
  simp [hgone]

theorem tombstones (hstage : g.stage = .rows [])
    (hkeys : ∀ key ∈ v.keys g.fromUser, key = g.fromUser.text) :
    OwnerInv (v.setMerge n (some { g with stage := .rekeying })) := by
  have hok := hinv.merge n g hmerge
  have hleft : RowsLeft v g.fromUser [] := hok.stage_of hstage
  exact hinv.goesTo hmerge ⟨rfl, rfl⟩ ⟨hok.ne, hok.either, hok.unnamed, hleft, hkeys⟩

theorem skips {rest : List Uuid}
    (horgs : g.orgs = org :: rest) (hunnamed : ¬ v.Names org g.fromUser.text) :
    OwnerInv (v.setMerge n (some { g with orgs := rest })) := by
  have hok := hinv.merge n g hmerge
  refine hinv.goesTo hmerge ⟨rfl, rfl⟩ ⟨hok.ne, hok.either, ?_, hok.stage.congr
    (fun _ _ _ _ => rfl) hok.onlyText⟩
  intro place hroot hout
  by_cases hplace : place = org
  · subst hplace
    exact hunnamed
  · refine hok.unnamed place hroot ?_
    rw [horgs]
    exact List.not_mem_cons_of_ne_of_not_mem hplace hout

end

omit hinv in
theorem names_rekeyed {document : AccessConfig} {source into key : String}
    (hdocument : v.documents org = some document) :
    (v.setDocument org (rekeyMemberGrants document (mergedKey source into)).1).Names place key ↔
      if place = org then
        (key = into ∧ v.Names org source) ∨ (key ≠ source ∧ v.Names org key)
      else
        v.Names place key := by
  have hold : ∀ key, OwnerGrant document key ↔ v.Names org key := by
    intro key
    simp [OwnerView.Names, hdocument]
  have hgiven : ∀ old, (mergedKey source into old).getD old = if old = source then into else old := by
    intro old
    unfold mergedKey
    split
    · rfl
    · rfl
  rw [names_setDocument, ownerGrant_rekeyMemberGrants]
  split
  · simp only [hold, hgiven]
    constructor
    · rintro ⟨old, hnamed, hkey⟩
      split at hkey
      · next hsource => exact .inl ⟨hkey.symm, hsource ▸ hnamed⟩
      · next hsource => exact .inr ⟨hkey ▸ hsource, hkey ▸ hnamed⟩
    · rintro (⟨hkey, hnamed⟩ | ⟨hne, hnamed⟩)
      · exact ⟨source, hnamed, by rw [if_pos rfl, hkey]⟩
      · exact ⟨key, hnamed, by rw [if_neg hne]⟩
  · exact Iff.rfl

theorem rekeys {rest : List Uuid} {document : AccessConfig}
    (hmerge : v.merges n = some g) (hstage : g.stage = .rekeying) (horgs : g.orgs = org :: rest)
    (hdocument : v.documents org = some document)
    (hself : g.fromUser.text ∈ v.keys g.fromUser ∧ g.intoUser.text ∈ v.keys g.intoUser)
    (hshared : ∀ other, ¬ g.Takes other →
      g.fromUser.text ∉ v.keys other ∧ g.intoUser.text ∉ v.keys other) :
    OwnerInv ((v.setDocument org
        (rekeyMemberGrants document (mergedKey g.fromUser.text g.intoUser.text)).1).setMerge n
          (some { g with orgs := rest })) := by
  have hok := hinv.merge n g hmerge
  obtain ⟨hleft, honly⟩ :
      RowsLeft v g.fromUser [] ∧ ∀ key ∈ v.keys g.fromUser, key = g.fromUser.text :=
    hok.stage_of hstage
  have htext : g.fromUser.text ≠ g.intoUser.text := fun heq => hok.ne (Uuid.ext_text heq)
  let t := v.setDocument org
    (rekeyMemberGrants document (mergedKey g.fromUser.text g.intoUser.text)).1
  have hnames : ∀ place key, t.Names place key ↔
      if place = org then
        (key = g.intoUser.text ∧ v.Names org g.fromUser.text) ∨
          (key ≠ g.fromUser.text ∧ v.Names org key)
      else
        v.Names place key := by
    intro place key
    exact names_rekeyed hdocument
  have hkept : ∀ place key, key ≠ g.fromUser.text → key ≠ g.intoUser.text →
      (t.Names place key ↔ v.Names place key) := by
    intro place key hfrom hinto
    rw [hnames]
    split
    · next hplace => simp [hfrom, hinto, hplace]
    · exact Iff.rfl
  have hgone : ¬ t.Names org g.fromUser.text := by
    rw [hnames, if_pos rfl]
    rintro (⟨heq, _⟩ | ⟨hne, _⟩)
    · exact htext heq
    · exact hne rfl
  have hmoved : t.Owns g.intoUser org ↔ v.Owns g.fromUser org ∨ v.Owns g.intoUser org := by
    constructor
    · rintro ⟨key, hkey, hnamed⟩
      rw [hnames, if_pos rfl] at hnamed
      rcases hnamed with ⟨_, hsource⟩ | ⟨_, hold⟩
      · exact .inl ⟨_, hself.1, hsource⟩
      · exact .inr ⟨key, hkey, hold⟩
    · have hgiven : v.Names org g.fromUser.text → t.Owns g.intoUser org := by
        intro hsource
        refine ⟨_, hself.2, (hnames org _).mpr ?_⟩
        rw [if_pos rfl]
        exact .inl ⟨rfl, hsource⟩
      rintro (⟨key, hkey, hnamed⟩ | ⟨key, hkey, hnamed⟩)
      · exact hgiven (honly key hkey ▸ hnamed)
      · by_cases hsource : key = g.fromUser.text
        · exact hgiven (hsource ▸ hnamed)
        · refine ⟨key, hkey, (hnames org key).mpr ?_⟩
          rw [if_pos rfl]
          exact .inr ⟨hsource, hnamed⟩
  have hsource : ¬ t.Owns g.fromUser org := by
    rintro ⟨key, hkey, hnamed⟩
    exact hgone (honly key hkey ▸ hnamed)
  have helsewhere : ∀ user place, place ≠ org → (t.Owns user place ↔ v.Owns user place) := by
    intro user place hplace
    simp only [OwnerView.Owns, hnames, if_neg hplace]
    rfl
  have hnext : MergeOk (t.setMerge n (some { g with orgs := rest })) { g with orgs := rest } := by
    refine ⟨hok.ne, ?_, ?_, ?_⟩
    · intro place hroot
      refine Iff.trans ?_ (hok.either place hroot)
      by_cases hplace : place = org
      · subst hplace
        exact (or_iff_right hsource).trans hmoved
      · exact or_congr (helsewhere _ place hplace) (helsewhere _ place hplace)
    · intro place hroot hout
      by_cases hplace : place = org
      · subst hplace
        exact hgone
      · intro hnamed
        have hbefore := (hnames place g.fromUser.text).mp hnamed
        rw [if_neg hplace] at hbefore
        refine hok.unnamed place hroot ?_ hbefore
        rw [horgs]
        exact List.not_mem_cons_of_ne_of_not_mem hplace hout
    · rw [hstage]
      exact ⟨hleft.congr fun _ _ => rfl, honly⟩
  refine hinv.goesOn hmerge ?_ rfl ?_ (fun _ _ _ _ => rfl) ?_ ?_ (fun _ _ _ hkey => hkey) hnext
  · exact ⟨rfl, rfl⟩
  · rfl
  · intro user place hfree _
    refine exists_congr fun key => and_congr_right fun hkey => hkept place key ?_ ?_
    · rintro rfl
      exact (hshared user hfree).1 hkey
    · rintro rfl
      exact (hshared user hfree).2 hkey
  · intro user place hfree _
    refine (hkept place user.text ?_ ?_).mp
    · intro heq
      exact hfree (.inl (Uuid.ext_text heq))
    · intro heq
      exact hfree (.inr (Uuid.ext_text heq))

theorem ends (hmerge : v.merges n = some g) (hstage : g.stage = .rekeying)
    (horgs : g.orgs = []) : OwnerInv (v.setMerge n none) := by
  have hok := hinv.merge n g hmerge
  obtain ⟨hleft, honly⟩ :
      RowsLeft v g.fromUser [] ∧ ∀ key ∈ v.keys g.fromUser, key = g.fromUser.text :=
    hok.stage_of hstage
  have hbefore : ∀ k h, (v.setMerge n none).merges k = some h → k ≠ n ∧ v.merges k = some h := by
    intro k h hk
    by_cases hkn : k = n
    · subst hkn
      simp [OwnerView.setMerge] at hk
    · exact ⟨hkn, (update_of_ne hkn _ _).symm.trans hk⟩
  have hsource : ∀ org, org ≠ PLATFORM_ROOT_TENANT_ID →
      ¬ v.Owns g.fromUser org ∧ ¬ v.IsOwner g.fromUser org := by
    intro org hroot
    constructor
    · rintro ⟨key, hkey, hnamed⟩
      refine hok.unnamed org hroot ?_ (honly key hkey ▸ hnamed)
      rw [horgs]
      exact List.not_mem_nil
    · exact not_isOwner_of_rowsLeft hleft hroot
  refine ⟨hinv.rootless, hinv.target, ?_, ?_, ?_, ?_⟩
  · intro user org hroot
    obtain ⟨hunowned, hnoOwner⟩ := hsource org hroot
    rcases hinv.agrees user org hroot with hpends | ⟨k, h, hk, htakes⟩ | hsame
    · exact .inl hpends
    · by_cases hkn : k = n
      · subst hkn
        rw [hmerge] at hk
        cases hk
        rcases htakes with rfl | rfl
        · exact .inr (.inr (iff_of_false hunowned hnoOwner))
        · have hinto := hok.either org hroot
          rw [or_iff_right hunowned, or_iff_right hnoOwner] at hinto
          exact .inr (.inr hinto)
      · exact .inr (.inl ⟨k, h, (update_of_ne hkn _ _).trans hk, htakes⟩)
    · exact .inr (.inr hsame)
  · rintro user org ⟨k, h, hk, htakes⟩
    exact hinv.idle user org ⟨k, h, (hbefore k h hk).2, htakes⟩
  · intro k l h h' user hk hl
    exact hinv.one k l h h' user (hbefore k h hk).2 (hbefore l h' hl).2
  · intro k h hk
    exact (hinv.merge k h (hbefore k h hk).2).congr (fun _ _ _ _ => Iff.rfl)
      (fun _ _ hnamed => hnamed) (fun _ _ _ _ => rfl) (hinv.merge k h (hbefore k h hk).2).onlyText

/-- **Step**: every change keeps the grants with the owners. -/
theorem preserved (hchange : StandingChange v t) : OwnerInv t := by
  cases hchange with
  | writes _ _ _ _ _ hroot howner hfree htaken hpending =>
    exact hinv.writes hroot howner hfree htaken hpending
  | plain user org _ hrow =>
    refine hinv.setRow (fun horg => (hrow horg).1) ?_ ?_
    · intro k owner hk
      exact (hrow (hinv.rootless k user org owner hk)).2.1 k owner hk
    · intro horg
      by_cases hpends : v.Pends user org
      · exact .inl hpends
      · exact .inr ((hrow horg).2.2 hpends)
  | syncs _ _ _ _ _ _ hcall hdocument hkeys hshared =>
    subst hdocument
    exact hinv.syncs hcall hkeys hshared
  | links _ _ _ hkeys hunnamed hgone => exact hinv.links hkeys hunnamed hgone
  | begins _ _ hstage hfree hne hself htaken hidle horgs =>
    exact hinv.begins hstage hfree hne hself htaken hidle horgs
  | moves _ _ _ hmerge hstage hother hunion => exact hinv.moves hmerge hstage hother hunion
  | lists _ _ _ hmerge hleft => exact hinv.lists hmerge hleft
  | records _ _ _ _ _ hmerge hstage hnew => exact hinv.records hmerge hstage hnew
  | removes _ _ _ _ hmerge hstage => exact hinv.removes hmerge hstage
  | tombstones _ _ hmerge hstage hkeys => exact hinv.tombstones hmerge hstage hkeys
  | rekeys _ _ _ _ _ hmerge hstage horgs hdocument hself hshared =>
    exact hinv.rekeys hmerge hstage horgs hdocument hself hshared
  | skips _ _ _ _ hmerge horgs hunnamed => exact hinv.skips hmerge horgs hunnamed
  | ends _ _ hmerge hstage horgs => exact hinv.ends hmerge hstage horgs

end

end OwnerInv

end OwnerInvariant

end UserProfile
end StudioWeb
