import StudioWeb.UserProfile.OrgCalls

/-!
# Owners and their grants, without the statements

A view of the operations: which of them have still to set a grant, and which merges have
how many memberships and grants still to move.
-/

namespace StudioWeb
namespace UserProfile

open List
open StudioAuthz (ROLE_OWNER AccessConfig)
open OrgWorld (mergedKey)

/-- How far a merge is with the memberships of its source. -/
inductive GrantStage where
  /-- They are not listed yet. -/
  | opening
  | rows (left : List (Uuid × MembershipRow))
  /-- The first is recorded for the target. -/
  | recorded (row : Uuid × MembershipRow) (rest : List (Uuid × MembershipRow))
  | rekeying

structure GrantMerge where
  fromUser : Uuid
  intoUser : Uuid
  orgs : List Uuid
  stage : GrantStage

def GrantMerge.Takes (g : GrantMerge) (user : Uuid) : Prop := user = g.fromUser ∨ user = g.intoUser

structure OwnerView where
  documents : Uuid → Option AccessConfig
  memberships : InsertionMap (Uuid × Uuid) MembershipRow
  /-- The grant keys of a person. -/
  keys : Uuid → List String
  /-- The grants that operations have still to set. -/
  pending : Nat → Option (Uuid × Uuid × Bool)
  merges : Nat → Option GrantMerge

namespace OwnerView

/-- The document of an organization gives a key the owner grant. -/
def Names (v : OwnerView) (org : Uuid) (key : String) : Prop :=
  ∃ document, v.documents org = some document ∧ OwnerGrant document key

/-- The grant keys of a person hold the owner grant. -/
def Owns (v : OwnerView) (user org : Uuid) : Prop := ∃ key ∈ v.keys user, v.Names org key

def IsOwner (v : OwnerView) (user org : Uuid) : Prop :=
  ∃ row, v.memberships.get? (user, org) = some row ∧ row.isActiveOwner = true

/-- A merge in progress is of the person. -/
def Taken (v : OwnerView) (user : Uuid) : Prop := ∃ n g, v.merges n = some g ∧ g.Takes user

def Pends (v : OwnerView) (user org : Uuid) : Prop :=
  ∃ n owner, v.pending n = some (user, org, owner)

def setRow (v : OwnerView) (user org : Uuid) (row : Option MembershipRow) : OwnerView :=
  { v with
    memberships :=
      match row with
      | some row => v.memberships.set (user, org) row
      | none => v.memberships.erase (user, org) }

def setPending (v : OwnerView) (n : Nat) (p : Option (Uuid × Uuid × Bool)) : OwnerView :=
  { v with pending := Function.update v.pending n p }

def setMerge (v : OwnerView) (n : Nat) (g : Option GrantMerge) : OwnerView :=
  { v with merges := Function.update v.merges n g }

def setDocument (v : OwnerView) (org : Uuid) (document : AccessConfig) : OwnerView :=
  { v with documents := Function.update v.documents org (some document) }

end OwnerView

def OwnerRow (row : Option MembershipRow) : Prop := ∃ r, row = some r ∧ r.isActiveOwner = true

/-- The memberships of the source of a merge are those that are left. -/
def RowsLeft (v : OwnerView) (user : Uuid) (left : List (Uuid × MembershipRow)) : Prop :=
  (left.map Prod.fst).Nodup ∧ ∀ org row, org ≠ PLATFORM_ROOT_TENANT_ID →
      (v.memberships.get? (user, org) = some row ↔ (org, row) ∈ left)

/-- What a statement can change. -/
inductive StandingChange (v : OwnerView) : OwnerView → Prop
  | writes
      (n : Nat)
      (user org : Uuid)
      (row : Option MembershipRow)
      (owner : Bool)
      (hroot : org ≠ PLATFORM_ROOT_TENANT_ID)
      (howner : owner = true ↔ OwnerRow row)
      (hfree : v.pending n = none)
      (htaken : ¬ v.Taken user)
      (hpending : ∀ k other, v.pending k = some (user, org, other) → other = owner) :
      StandingChange v ((v.setRow user org row).setPending n (some (user, org, owner)))
  | plain
      (user org : Uuid)
      (row : Option MembershipRow)
      (hrow : org ≠ PLATFORM_ROOT_TENANT_ID → ¬ v.Taken user ∧
          (∀ k owner, v.pending k = some (user, org, owner) → (owner = true ↔ OwnerRow row)) ∧
          (¬ v.Pends user org → (v.Owns user org ↔ OwnerRow row))) :
      StandingChange v (v.setRow user org row)
  | syncs
      (n : Nat)
      (user org : Uuid)
      (owner : Bool)
      (legacyKeys : List String)
      (document : AccessConfig)
      (hcall : v.pending n = some (user, org, owner))
      (hdocument : document = (v.documents org).getD freshDocument)
      (hkeys : ∀ key, key ∈ v.keys user ↔ key = user.text ∨ key ∈ legacyKeys)
      (hshared : ∀ other, other ≠ user → ∀ key ∈ v.keys other, key ∉ v.keys user) :
      StandingChange v ((v.setDocument org
          (setOwnerGrant document org.text user.text legacyKeys owner)).setPending n none)
  | links
      (user : Uuid)
      (subject : String)
      (keys : Uuid → List String)
      (hkeys : ∀ other key, key ∈ keys other ↔ key ∈ v.keys other ∨ (other = user ∧ key = subject))
      (hunnamed : ∀ org, org ≠ PLATFORM_ROOT_TENANT_ID → ¬ v.Names org subject)
      (hgone : ∀ n g, v.merges n = some g → g.stage = .rekeying → user ≠ g.fromUser) :
      StandingChange v { v with keys := keys }
  | begins
      (n : Nat)
      (g : GrantMerge)
      (hstage : g.stage = .opening)
      (hfree : v.merges n = none)
      (hne : g.fromUser ≠ g.intoUser)
      (hself : g.fromUser.text ∈ v.keys g.fromUser)
      (htaken : ∀ user, g.Takes user → ¬ v.Taken user)
      (hidle : ∀ user org, g.Takes user → ¬ v.Pends user org)
      (horgs : ∀ org row, org ≠ PLATFORM_ROOT_TENANT_ID →
        v.memberships.get? (g.fromUser, org) = some row → org ∈ g.orgs) :
      StandingChange v (v.setMerge n (some g))
  | moves
      (n : Nat)
      (g : GrantMerge)
      (keys : Uuid → List String)
      (hmerge : v.merges n = some g)
      (hstage : g.stage ≠ .rekeying)
      (hother : ∀ other key, ¬ g.Takes other → (key ∈ keys other ↔ key ∈ v.keys other))
      (hunion : ∀ key, (key ∈ keys g.fromUser ∨ key ∈ keys g.intoUser) ↔
          (key ∈ v.keys g.fromUser ∨ key ∈ v.keys g.intoUser)) :
      StandingChange v { v with keys := keys }
  | lists
      (n : Nat)
      (g : GrantMerge)
      (left : List (Uuid × MembershipRow))
      (hmerge : v.merges n = some g)
      (hleft : RowsLeft v g.fromUser left) :
      StandingChange v (v.setMerge n (some { g with stage := .rows left }))
  | records
      (n : Nat)
      (g : GrantMerge)
      (row : Uuid × MembershipRow)
      (rest : List (Uuid × MembershipRow))
      (new : MembershipRow)
      (hmerge : v.merges n = some g)
      (hstage : g.stage = .rows (row :: rest))
      (hnew : row.1 ≠ PLATFORM_ROOT_TENANT_ID →
        (new.isActiveOwner = true ↔ row.2.isActiveOwner = true) ∧
          (v.IsOwner g.intoUser row.1 → row.2.isActiveOwner = true)) :
      StandingChange v ((v.setRow g.intoUser row.1 (some new)).setMerge n
        (some { g with stage := .recorded row rest }))
  | removes
      (n : Nat)
      (g : GrantMerge)
      (row : Uuid × MembershipRow)
      (rest : List (Uuid × MembershipRow))
      (hmerge : v.merges n = some g)
      (hstage : g.stage = .recorded row rest) :
      StandingChange v ((v.setRow g.fromUser row.1 none).setMerge n
        (some { g with stage := .rows rest }))
  | tombstones
      (n : Nat)
      (g : GrantMerge)
      (hmerge : v.merges n = some g)
      (hstage : g.stage = .rows [])
      (hkeys : ∀ key ∈ v.keys g.fromUser, key = g.fromUser.text) :
      StandingChange v (v.setMerge n (some { g with stage := .rekeying }))
  | rekeys
      (n : Nat)
      (g : GrantMerge)
      (org : Uuid)
      (rest : List Uuid)
      (document : AccessConfig)
      (hmerge : v.merges n = some g)
      (hstage : g.stage = .rekeying)
      (horgs : g.orgs = org :: rest)
      (hdocument : v.documents org = some document)
      (hself : g.fromUser.text ∈ v.keys g.fromUser ∧ g.intoUser.text ∈ v.keys g.intoUser)
      (hshared : ∀ other, ¬ g.Takes other →
        g.fromUser.text ∉ v.keys other ∧ g.intoUser.text ∉ v.keys other) :
      StandingChange v ((v.setDocument org (rekeyMemberGrants document
            (mergedKey g.fromUser.text g.intoUser.text)).1).setMerge n
              (some { g with orgs := rest }))
  | skips
      (n : Nat)
      (g : GrantMerge)
      (org : Uuid)
      (rest : List Uuid)
      (hmerge : v.merges n = some g)
      (horgs : g.orgs = org :: rest)
      (hunnamed : ¬ v.Names org g.fromUser.text) :
      StandingChange v (v.setMerge n (some { g with orgs := rest }))
  | ends
      (n : Nat)
      (g : GrantMerge)
      (hmerge : v.merges n = some g)
      (hstage : g.stage = .rekeying)
      (horgs : g.orgs = []) :
      StandingChange v (v.setMerge n none)

section View

variable
  {v t : OwnerView}
  {n k : Nat}
  {g h : GrantMerge}
  {user other org place : Uuid}
  {row : Option MembershipRow}
  {p : Option (Uuid × Uuid × Bool)}

theorem Uuid.ext_text {a b : Uuid} (h : a.text = b.text) : a = b := by
  cases a
  cases b
  cases h
  rfl

theorem get?_setRow (key : Uuid × Uuid) :
    (v.setRow user org row).memberships.get? key =
      if key = (user, org) then row else v.memberships.get? key := by
  cases row with
  | some => exact InsertionMap.get?_set ..
  | none => exact InsertionMap.get?_erase ..

theorem isOwner_setRow_self : (v.setRow user org row).IsOwner user org ↔ OwnerRow row := by
  simp only [OwnerView.IsOwner, get?_setRow, if_true, OwnerRow]

theorem get?_setRow_of_ne (hne : (other, place) ≠ (user, org)) :
    (v.setRow user org row).memberships.get? (other, place) =
      v.memberships.get? (other, place) := by
  rw [get?_setRow, if_neg hne]

theorem isOwner_congr (hrow : t.memberships.get? (user, org) = v.memberships.get? (user, org)) :
    t.IsOwner user org ↔ v.IsOwner user org := by
  simp only [OwnerView.IsOwner, hrow]

theorem names_setDocument {document : AccessConfig} {key : String} :
    (v.setDocument org document).Names place key ↔
      if place = org then OwnerGrant document key else v.Names place key := by
  by_cases hplace : place = org
  · subst hplace
    simp [OwnerView.Names, OwnerView.setDocument]
  · simp [OwnerView.Names, OwnerView.setDocument, hplace]

def StageOk (v : OwnerView) (g : GrantMerge) : GrantStage → Prop
  | .opening => True
  | .rows left => RowsLeft v g.fromUser left
  | .recorded row rest =>
    RowsLeft v g.fromUser (row :: rest) ∧ (row.1 ≠ PLATFORM_ROOT_TENANT_ID →
        (v.IsOwner g.intoUser row.1 ↔ row.2.isActiveOwner = true))
  | .rekeying =>
    RowsLeft v g.fromUser [] ∧ ∀ key ∈ v.keys g.fromUser, key = g.fromUser.text

/-- A merge keeps, of its two people together, the grants with the owners. -/
structure MergeOk (v : OwnerView) (g : GrantMerge) : Prop where
  ne : g.fromUser ≠ g.intoUser
  either :
    ∀ org, org ≠ PLATFORM_ROOT_TENANT_ID → (v.Owns g.fromUser org ∨ v.Owns g.intoUser org ↔
        v.IsOwner g.fromUser org ∨ v.IsOwner g.intoUser org)
  unnamed :
    ∀ org, org ≠ PLATFORM_ROOT_TENANT_ID → org ∉ g.orgs → ¬ v.Names org g.fromUser.text
  stage : StageOk v g g.stage

theorem MergeOk.stage_of {stage : GrantStage} (h : MergeOk v g) (hstage : g.stage = stage) :
    StageOk v g stage := by
  rw [← hstage]
  exact h.stage

theorem MergeOk.onlyText (h : MergeOk v g) (hstage : g.stage = .rekeying) :
    ∀ key ∈ v.keys g.fromUser, key = g.fromUser.text := by
  exact (h.stage_of hstage).2

theorem RowsLeft.congr {left : List (Uuid × MembershipRow)} (h : RowsLeft v user left)
    (hrows : ∀ org, org ≠ PLATFORM_ROOT_TENANT_ID →
      t.memberships.get? (user, org) = v.memberships.get? (user, org)) :
    RowsLeft t user left := by
  refine ⟨h.1, ?_⟩
  intro org row horg
  rw [hrows org horg]
  exact h.2 org row horg

theorem RowsLeft.head {row : Uuid × MembershipRow} {rest : List (Uuid × MembershipRow)}
    (h : RowsLeft v user (row :: rest)) (hroot : row.1 ≠ PLATFORM_ROOT_TENANT_ID) :
    v.IsOwner user row.1 ↔ row.2.isActiveOwner = true := by
  have hrow : v.memberships.get? (user, row.1) = some row.2 :=
    (h.2 row.1 row.2 hroot).mpr mem_cons_self
  constructor
  · rintro ⟨r, hr, howner⟩
    rw [hrow] at hr
    cases hr
    exact howner
  · intro howner
    exact ⟨row.2, hrow, howner⟩

theorem RowsLeft.tail {row : Uuid × MembershipRow} {rest : List (Uuid × MembershipRow)}
    (h : RowsLeft v user (row :: rest)) : RowsLeft (v.setRow user row.1 none) user rest := by
  have hnodup := nodup_cons.mp h.1
  refine ⟨hnodup.2, ?_⟩
  intro org r hroot
  by_cases horg : org = row.1
  · subst horg
    rw [get?_setRow, if_pos rfl]
    constructor
    · intro hnone
      cases hnone
    · intro hmem
      exact absurd (mem_map_of_mem hmem) hnodup.1
  · have hne : (user, org) ≠ (user, row.1) := by
      simp [horg]
    rw [get?_setRow_of_ne hne, h.2 org r hroot, mem_cons]
    constructor
    · rintro (heq | hmem)
      · exact absurd (congrArg Prod.fst heq) horg
      · exact hmem
    · exact .inr

theorem not_isOwner_of_rowsLeft (h : RowsLeft v user []) (hroot : org ≠ PLATFORM_ROOT_TENANT_ID) :
    ¬ v.IsOwner user org := by
  rintro ⟨row, hrow, _⟩
  exact absurd ((h.2 org row hroot).mp hrow) not_mem_nil

theorem StageOk.congr {stage : GrantStage} (h : StageOk v g stage)
    (hrows : ∀ user org, g.Takes user → org ≠ PLATFORM_ROOT_TENANT_ID →
      t.memberships.get? (user, org) = v.memberships.get? (user, org))
    (hkeys : stage = .rekeying → ∀ key ∈ t.keys g.fromUser, key = g.fromUser.text) :
    StageOk t g stage := by
  have hfrom : ∀ org, org ≠ PLATFORM_ROOT_TENANT_ID →
      t.memberships.get? (g.fromUser, org) = v.memberships.get? (g.fromUser, org) :=
    fun org horg => hrows _ org (.inl rfl) horg
  cases stage with
  | opening => trivial
  | rows => exact RowsLeft.congr h hfrom
  | recorded =>
    refine ⟨RowsLeft.congr h.1 hfrom, ?_⟩
    intro hroot
    rw [isOwner_congr (hrows _ _ (.inr rfl) hroot)]
    exact h.2 hroot
  | rekeying => exact ⟨RowsLeft.congr h.1 hfrom, hkeys rfl⟩

theorem MergeOk.congr (h : MergeOk v g)
    (howns : ∀ user org, g.Takes user → org ≠ PLATFORM_ROOT_TENANT_ID →
      (t.Owns user org ↔ v.Owns user org))
    (hnames : ∀ org, org ≠ PLATFORM_ROOT_TENANT_ID →
      t.Names org g.fromUser.text → v.Names org g.fromUser.text)
    (hrows : ∀ user org, g.Takes user → org ≠ PLATFORM_ROOT_TENANT_ID →
      t.memberships.get? (user, org) = v.memberships.get? (user, org))
    (hkeys : g.stage = .rekeying → ∀ key ∈ t.keys g.fromUser, key = g.fromUser.text) :
    MergeOk t g := by
  refine ⟨h.ne, ?_, ?_, h.stage.congr hrows hkeys⟩
  · intro org horg
    rw [howns _ org (.inl rfl) horg, howns _ org (.inr rfl) horg,
      isOwner_congr (hrows _ org (.inl rfl) horg), isOwner_congr (hrows _ org (.inr rfl) horg)]
    exact h.either org horg
  · intro org horg hout hnamed
    exact h.unnamed org horg hout (hnames org horg hnamed)

/-- The grants go with the owners, but for what is still to be set or moved. -/
structure OwnerInv (v : OwnerView) : Prop where
  rootless :
    ∀ n user org owner, v.pending n = some (user, org, owner) → org ≠ PLATFORM_ROOT_TENANT_ID
  target :
    ∀ n user org owner, v.pending n = some (user, org, owner) → (owner = true ↔ v.IsOwner user org)
  agrees :
    ∀ user org, org ≠ PLATFORM_ROOT_TENANT_ID →
      v.Pends user org ∨ v.Taken user ∨ (v.Owns user org ↔ v.IsOwner user org)
  idle : ∀ user org, v.Taken user → ¬ v.Pends user org
  one :
    ∀ n k g h user, v.merges n = some g → v.merges k = some h → g.Takes user → h.Takes user → n = k
  merge : ∀ n g, v.merges n = some g → MergeOk v g

/-- With no operation in progress the grants are with the owners. -/
theorem OwnerInv.agrees_of_idle (hinv : OwnerInv v) (hpending : ∀ n, v.pending n = none)
    (hmerges : ∀ n, v.merges n = none) (horg : org ≠ PLATFORM_ROOT_TENANT_ID) :
    v.Owns user org ↔ v.IsOwner user org := by
  rcases hinv.agrees user org horg with ⟨n, owner, hpends⟩ | ⟨n, g, htakes, _⟩ | hagrees
  · rw [hpending n] at hpends
    cases hpends
  · rw [hmerges n] at htakes
    cases htakes
  · exact hagrees

end View

end UserProfile
end StudioWeb
