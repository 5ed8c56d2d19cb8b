import Mathlib.Logic.Relation
import StudioWeb.UserProfile.OwnerInvariant
import StudioWeb.UserProfile.PeopleSteps
import StudioWeb.UserProfile.RuledWrites

/-!
# What a statement of an operation changes of owners and their grants
-/

namespace StudioWeb
namespace UserProfile

open Option Function OwnerView
open StudioAuthz (AccessConfig)
open Relation (ReflTransGen)

/-- The membership is written, and its grant is not set yet. -/
def ChangePc.written : ChangePc → Bool
  | .checking => false
  | .personChecks => false
  | .writing => false
  | .syncLogins => true
  | .syncReads _ => true
  | .syncWrites _ _ => true

/-- How far a merge is with the memberships of its source. -/
def MergePc.stage : MergePc → GrantStage
  | .recordChecks _ row rest => .rows (row :: rest)
  | .recording _ row rest => .rows (row :: rest)
  | .removing _ row rest => .recorded row rest
  | .tombstoning _ => .rows []
  | _ => .opening

def PersonCall.stage : PersonCall → GrantStage
  | .resolve _ _ _ => .opening
  | .merge _ _ pc => pc.stage

def GrantsPc.moving (call : Option PersonCall) : GrantsPc → Option (List Uuid × GrantStage)
  | .listing => none
  | .merging orgs => some (orgs, (call.map PersonCall.stage).getD .opening)
  | .rekeyReads org rest => some (org :: rest, .rekeying)
  | .rekeyWrites org _ rest => some (org :: rest, .rekeying)

/-- The grant that an operation has still to set. -/
def OrgOp.pending (parseUuid : String → Option Uuid) : OrgOp → Option (Uuid × Uuid × Bool)
  | .changes c pc =>
    if pc.written then
      (parseUuid c.user).map fun user => (user, c.org, c.owner)
    else
      none
  | .mergesGrants _ _ _ => none

def OrgOp.merge (parseUuid : String → Option Uuid)
    (call : Option PersonCall) : OrgOp → Option GrantMerge
  | .changes _ _ => none
  | .mergesGrants fromUser intoUser pc =>
    match parseUuid fromUser, parseUuid intoUser, pc.moving call with
    | some source, some into, some (orgs, stage) => some ⟨source, into, orgs, stage⟩
    | _, _, _ => none

/-- The merge of a source that is merged away. -/
def GrantsPc.rekeys : GrantsPc → Bool
  | .listing => false
  | .merging _ => false
  | .rekeyReads _ _ => true
  | .rekeyWrites _ _ _ => true

def grantsLeft (source into : Uuid) : List Uuid → Option GrantMerge
  | [] => none
  | org :: rest => some ⟨source, into, org :: rest, .rekeying⟩

def PeopleWorld.grantKeys (w : PeopleWorld) (user : Uuid) : List String :=
  if (w.users user).isSome then
    user.text :: (w.loginsOf user).map fun l => l.2.subject
  else
    []

namespace OrgWorld

def view (parseUuid : String → Option Uuid) (w : OrgWorld) : OwnerView where
  documents := w.documents
  memberships := w.people.memberships
  keys := w.people.grantKeys
  pending := fun n => (w.ops n).bind (OrgOp.pending parseUuid)
  merges := fun n => (w.ops n).bind (OrgOp.merge parseUuid (w.people.calls n))

end OrgWorld

/-- What is written of a membership outside a merge goes with its grant: the person is in
no merge; whatever operation has still to set the grant sets it so; and where none does,
and the grant does not follow, it is so already. -/
structure Follows
    (v : OwnerView) (user org : Uuid) (owner synced : Bool) : Prop where
  free : ¬ v.Taken user
  pending : ∀ n other, v.pending n = some (user, org, other) → other = owner
  agrees : synced = false → ¬ v.Pends user org → (v.Owns user org ↔ owner = true)

/-- Nobody else has a grant key of the person. -/
def KeysApart (w : OrgWorld) (user : Uuid) : Prop :=
  ∀ other, other ≠ user → ∀ key ∈ w.people.grantKeys other, key ∉ w.people.grantKeys user

/-- The statements of operations do not get between a membership and its grant. -/
structure GrantsFollow
    (v5 : String → Uuid) (parseUuid : String → Option Uuid)
    (firstLoginJoin : Option (Uuid × String)) (w : OrgWorld) (a : OrgAction) : Prop where
  apart : ∀ b, a = .person b → Apart v5 parseUuid w.people b
  /-- A new id is nobody's key. -/
  creates :
    ∀ call userId org, a = .person (.creates call userId) → org ≠ PLATFORM_ROOT_TENANT_ID →
      ¬ (w.view parseUuid).Names org userId.text
  /-- No document names the sign-in that is linked. -/
  links :
    ∀ call now s begun userId org, a = .person (.links call now) →
      w.people.calls call = some (.resolve s begun (.linking userId)) →
      org ≠ PLATFORM_ROOT_TENANT_ID →
      ¬ (w.view parseUuid).Names org s.subject
  joins :
    ∀ call s begun userId org role, a = .person (.runs call) →
      w.people.calls call = some (.resolve s begun (.joining userId)) →
      firstLoginJoin = some (org, role) →
      org ≠ PLATFORM_ROOT_TENANT_ID →
      Follows (w.view parseUuid) userId org (Standing.active role).isActiveOwner false
  writes :
    ∀ op c user, a = .runs op → w.ops op = some (.changes c .writing) →
      parseUuid c.user = some user →
      c.org ≠ PLATFORM_ROOT_TENANT_ID →
      Follows (w.view parseUuid) user c.org c.owner c.synced
  /-- The document and the logins are those that were read, of a person that is there, by
  the id that grants name. -/
  sets :
    ∀ op c legacyKeys document, a = .runs op →
      w.ops op = some (.changes c (.syncWrites legacyKeys document)) →
      ∃ user, parseUuid c.user = some user ∧ c.user = user.text ∧ (w.people.users user).isSome ∧
        document = w.documentOf c.org ∧
        (∀ key, key ∈ legacyKeys ↔ key ∈ w.subjectsOf user) ∧
        KeysApart w user
  /-- Two people that are there, and that no other operation is about. -/
  begins :
    ∀ op fromUser intoUser source into, a = .runs op →
      w.ops op = some (.mergesGrants fromUser intoUser .listing) →
      parseUuid fromUser = some source →
      parseUuid intoUser = some into →
      source ≠ into ∧ (w.people.users source).isSome ∧ ∀ user, user = source ∨ user = into →
          ¬ (w.view parseUuid).Taken user ∧ ∀ org, ¬ (w.view parseUuid).Pends user org
  /-- The membership of an owner is active, and an owner's is not replaced by another. -/
  records :
    ∀ call fromUser intoUser m row rest, a = .person (.runs call) →
      w.people.calls call = some (.merge fromUser intoUser (.recording m row rest)) →
      row.1 ≠ PLATFORM_ROOT_TENANT_ID →
      ((Standing.active row.2.role).isActiveOwner = true → row.2.isActiveOwner = true) ∧
        ((w.view parseUuid).IsOwner m.intoUser row.1 → row.2.isActiveOwner = true)
  /-- The source is spelled as grants name it. -/
  rereads :
    ∀ op fromUser intoUser org rest source, a = .runs op →
      w.ops op = some (.mergesGrants fromUser intoUser (.rekeyReads org rest)) →
      parseUuid fromUser = some source →
      fromUser = source.text
  /-- The document is the one that was read, and the ids are those that grants name. -/
  rekeys :
    ∀ op fromUser intoUser org document rest, a = .runs op →
      w.ops op = some (.mergesGrants fromUser intoUser (.rekeyWrites org document rest)) →
      ∃ source into, parseUuid fromUser = some source ∧ parseUuid intoUser = some into ∧
        fromUser = source.text ∧
        intoUser = into.text ∧
        (∃ read, w.documents org = some read ∧
          document = (rekeyMemberGrants read (OrgWorld.mergedKey fromUser intoUser)).1) ∧
        ∀ other, other ≠ source → other ≠ into →
          source.text ∉ w.people.grantKeys other ∧ into.text ∉ w.people.grantKeys other

section View

variable
  {v : OwnerView}
  {n op : Nat}

theorem setPending_self {p : Option (Uuid × Uuid × Bool)} (h : v.pending n = p) :
    v.setPending n p = v := by
  rw [setPending, ← h, update_eq_self]

theorem setMerge_self {g : Option GrantMerge} (h : v.merges n = g) : v.setMerge n g = v := by
  rw [setMerge, ← h, update_eq_self]

theorem setMerge_setMerge {g h : Option GrantMerge} :
    (v.setMerge n g).setMerge n h = v.setMerge n h := by
  simp [setMerge]

theorem changes_of_grantsLeft {source into : Uuid} (orgs : List Uuid) :
    ReflTransGen StandingChange (v.setMerge n (some ⟨source, into, orgs, .rekeying⟩))
      (v.setMerge n (grantsLeft source into orgs)) := by
  cases orgs with
  | nil =>
    let mid := v.setMerge n (some ⟨source, into, [], .rekeying⟩)
    have hends : StandingChange mid (mid.setMerge n none) := .ends n _ (update_self ..) rfl rfl
    rw [setMerge_setMerge] at hends
    exact .single hends
  | cons => rw [grantsLeft]

end View

namespace OrgWorld

section OrgSteps

variable
  {v5 : String → Uuid}
  {parseUuid : String → Option Uuid}
  {trim : String → String}
  {firstLoginJoin : Option (Uuid × String)}
  {w t : OrgWorld}
  {a : OrgAction}
  {op call : Nat}
  {c : MembershipChange}
  {pc : ChangePc}
  {fromUser intoUser : String}

theorem ownerView_goto (o : OrgOp) :
    (w.goto op o).view parseUuid =
      ((w.view parseUuid).setPending op (o.pending parseUuid)).setMerge op
        (o.merge parseUuid (w.people.calls op)) := by
  simp only [view, goto, setPending, setMerge, OwnerView.mk.injEq, true_and]
  refine ⟨?_, ?_⟩
  · funext n
    by_cases hn : n = op
    · subst hn
      simp
    · simp [update_of_ne hn]
  · funext n
    by_cases hn : n = op
    · subst hn
      simp
    · simp [update_of_ne hn]

theorem ownerView_finish :
    (w.finish op).view parseUuid =
      ((w.view parseUuid).setPending op none).setMerge op none := by
  simp only [view, finish, setPending, setMerge, OwnerView.mk.injEq, true_and]
  refine ⟨?_, ?_⟩
  · funext n
    by_cases hn : n = op
    · subst hn
      simp
    · simp [update_of_ne hn]
  · funext n
    by_cases hn : n = op
    · subst hn
      simp
    · simp [update_of_ne hn]

variable {next : ChangePc} {now : GrantsPc} {org : Uuid} {rest : List Uuid}

section

variable (hop : w.ops op = some (.changes c pc))
include hop

theorem ownerView_goto_change :
    (w.goto op (.changes c next)).view parseUuid =
      (w.view parseUuid).setPending op ((OrgOp.changes c next).pending parseUuid) := by
  rw [ownerView_goto]
  refine setMerge_self ?_
  simp [setPending, view, hop, OrgOp.merge]

theorem ownerView_finish_change :
    (w.finish op).view parseUuid = (w.view parseUuid).setPending op none := by
  rw [ownerView_finish]
  refine setMerge_self ?_
  simp [setPending, view, hop, OrgOp.merge]

theorem pending_of_change :
    (w.view parseUuid).pending op = (OrgOp.changes c pc).pending parseUuid := by
  simp [view, hop]

omit hop in
theorem ownerView_goto_grants {now next : GrantsPc}
    (hop : w.ops op = some (.mergesGrants fromUser intoUser now)) :
    (w.goto op (.mergesGrants fromUser intoUser next)).view parseUuid =
      (w.view parseUuid).setMerge op
        ((OrgOp.mergesGrants fromUser intoUser next).merge parseUuid (w.people.calls op)) := by
  rw [ownerView_goto, setPending_self]
  simp [view, hop, OrgOp.pending]

omit hop in
theorem ownerView_finish_grants (hop : w.ops op = some (.mergesGrants fromUser intoUser now)) :
    (w.finish op).view parseUuid = (w.view parseUuid).setMerge op none := by
  rw [ownerView_finish, setPending_self]
  simp [view, hop, OrgOp.pending]

omit hop in
theorem ownerView_setMembership {user org : Uuid} {row : Option MembershipRow} :
    (w.setMembership user org row).view parseUuid = (w.view parseUuid).setRow user org row := by
  cases row with
  | none => rfl
  | some => rfl

omit hop in
theorem ownerRow_iff_owner : c.owner = true ↔ OwnerRow (MembershipChange.row c) := by
  cases hafter : c.after with
  | none => simp [MembershipChange.owner, MembershipChange.row, OwnerRow, hafter]
  | some =>
    simp [MembershipChange.owner, MembershipChange.row, OwnerRow, hafter,
      Standing.isActiveOwner, MembershipRow.isActiveOwner]

theorem same_of_goto_change (hsame : next.written = pc.written) :
    (w.goto op (.changes c next)).view parseUuid = w.view parseUuid := by
  rw [ownerView_goto_change hop]
  refine setPending_self ?_
  rw [pending_of_change hop]
  simp [OrgOp.pending, hsame]

theorem goesOn_change (hsame : next.written = pc.written) :
    ReflTransGen StandingChange (w.view parseUuid)
      ((w.goto op (.changes c next)).view parseUuid) := by
  rw [same_of_goto_change hop hsame]

theorem same_of_finish_change
    (hunwritten : pc.written = false) : (w.finish op).view parseUuid = w.view parseUuid := by
  rw [ownerView_finish_change hop]
  refine setPending_self ?_
  rw [pending_of_change hop]
  simp [OrgOp.pending, hunwritten]

omit hop in
theorem changes_of_writes (hop : w.ops op = some (.changes c .writing))
    (hfollows : ∀ user, parseUuid c.user = some user → c.org ≠ PLATFORM_ROOT_TENANT_ID →
      Follows (w.view parseUuid) user c.org c.owner c.synced)
    (hgood : (w.writesMembership parseUuid op c).failed = false) :
    StandingChange (w.view parseUuid) ((w.writesMembership parseUuid op c).view parseUuid) := by
  unfold writesMembership at hgood ⊢
  cases hparse : parseUuid c.user with
  | none => simp [hparse, errs] at hgood
  | some user =>
    have hops : (w.setMembership user c.org (MembershipChange.row c)).ops op =
        some (.changes c .writing) := hop
    have hpending : (w.view parseUuid).pending op = none := by
      rw [pending_of_change hop]
      rfl
    simp only
    split
    · next hsyncs =>
      obtain ⟨_, hroot⟩ := Bool.and_eq_true_iff.mp hsyncs
      simp only [bne_iff_ne, ne_eq] at hroot
      have hfollow := hfollows user hparse hroot
      rw [ownerView_goto_change hops, ownerView_setMembership]
      simp only [OrgOp.pending, ChangePc.written, if_true, hparse, map_some]
      exact .writes op user c.org _ c.owner hroot ownerRow_iff_owner hpending hfollow.free
        hfollow.pending
    · next hplain =>
      rw [same_of_finish_change hops rfl, ownerView_setMembership]
      refine .plain user c.org _ ?_
      intro hroot
      have hsynced : c.synced = false := by
        simpa [hroot] using hplain
      have hfollow := hfollows user hparse hroot
      refine ⟨hfollow.free, ?_, ?_⟩
      · intro k owner hk
        rw [hfollow.pending k owner hk]
        exact ownerRow_iff_owner
      · intro hpends
        exact (hfollow.agrees hsynced hpends).trans ownerRow_iff_owner

/-- A statement of a change of a membership. -/
theorem changes_of_runsChange (hfollow : GrantsFollow v5 parseUuid firstLoginJoin w (.runs op))
    (hgood : (w.runsChange parseUuid op c pc).failed = false) :
    ReflTransGen StandingChange (w.view parseUuid)
      ((w.runsChange parseUuid op c pc).view parseUuid) := by
  cases pc with
  | checking =>
    simp only [runsChange, checks]
    split
    · exact goesOn_change hop rfl
    · exact goesOn_change hop rfl
    · exact goesOn_change hop rfl
    · rw [same_of_finish_change hop rfl]
  | personChecks =>
    simp only [runsChange, checksPerson] at hgood ⊢
    split
    · next hnobody =>
      rw [hnobody] at hgood
      cases hgood
    · exact goesOn_change hop rfl
  | writing =>
    refine .single (changes_of_writes hop ?_ hgood)
    intro user hparse hroot
    exact hfollow.writes op c user rfl hop hparse hroot
  | syncLogins =>
    simp only [runsChange, syncsLogins] at hgood ⊢
    split
    · next hparse =>
      rw [hparse] at hgood
      cases hgood
    · exact goesOn_change hop rfl
  | syncReads => exact goesOn_change hop rfl
  | syncWrites legacyKeys document =>
    simp only [runsChange]
    have hops : (w.setDocument c.org (setOwnerGrant document c.org.text c.user legacyKeys
        c.owner)).ops op = some (.changes c (.syncWrites legacyKeys document)) := hop
    rw [ownerView_finish_change hops]
    obtain ⟨user, hparse, htext, hthere, hdocument, hlegacy, hshared⟩ :=
      hfollow.sets op c legacyKeys document rfl hop
    rw [htext]
    refine .single (.syncs op user c.org c.owner legacyKeys document ?_ hdocument ?_ hshared)
    · rw [pending_of_change hop]
      simp [OrgOp.pending, ChangePc.written, hparse]
    · intro key
      simp [view, PeopleWorld.grantKeys, hthere, hlegacy, subjectsOf]

end

/-- The people of a merge whose grants are being moved are there, and the source is merged
away. -/
def Tombstoned (parseUuid : String → Option Uuid) (w : OrgWorld) : Prop :=
  ∀ op fromUser intoUser pc source into, w.ops op = some (.mergesGrants fromUser intoUser pc) →
    pc.rekeys = true →
    parseUuid fromUser = some source →
    parseUuid intoUser = some into →
    (∃ row, w.people.users source = some row ∧ row.mergedInto.isSome) ∧ (w.people.users into).isSome

theorem merge_of_unread {c : Option PersonCall}
    (hunread : parseUuid fromUser = none ∨ parseUuid intoUser = none) :
    (OrgOp.mergesGrants fromUser intoUser now).merge parseUuid c = none := by
  rcases hunread with hunread | hunread
  · simp [OrgOp.merge, hunread]
  · cases hparse : parseUuid fromUser with
    | none => simp [OrgOp.merge, hparse]
    | some => simp [OrgOp.merge, hparse, hunread]

section

variable (hop : w.ops op = some (.mergesGrants fromUser intoUser now))
include hop

theorem ownerView_rekeysNext {source into : Uuid}
    (hfrom : parseUuid fromUser = some source) (hinto : parseUuid intoUser = some into)
    (orgs : List Uuid) :
    (w.rekeysNext op fromUser intoUser orgs).view parseUuid =
      (w.view parseUuid).setMerge op (grantsLeft source into orgs) := by
  cases orgs with
  | nil => exact ownerView_finish_grants hop
  | cons =>
    rw [rekeysNext, ownerView_goto_grants hop]
    simp [OrgOp.merge, hfrom, hinto, GrantsPc.moving, grantsLeft]

theorem merges_of_grants {source into : Uuid} {orgs : List Uuid}
    {stage : GrantStage}
    (hfrom : parseUuid fromUser = some source) (hinto : parseUuid intoUser = some into)
    (hmoving : now.moving (w.people.calls op) = some (orgs, stage)) :
    (w.view parseUuid).merges op = some ⟨source, into, orgs, stage⟩ := by
  simp [view, hop, OrgOp.merge, hfrom, hinto, hmoving]

theorem changes_of_unread
    (hunread : parseUuid fromUser = none ∨ parseUuid intoUser = none) (orgs : List Uuid) :
    (w.rekeysNext op fromUser intoUser orgs).view parseUuid = w.view parseUuid := by
  have hnone : (w.view parseUuid).merges op = none := by
    simp [view, hop, merge_of_unread hunread]
  cases orgs with
  | nil =>
    rw [rekeysNext, ownerView_finish_grants hop]
    exact setMerge_self hnone
  | cons =>
    rw [rekeysNext, ownerView_goto_grants hop, merge_of_unread hunread]
    exact setMerge_self hnone

theorem changes_of_skips (hmoving : now.moving (w.people.calls op) = some (org :: rest, .rekeying))
    (hunnamed : ∀ source into, parseUuid fromUser = some source → parseUuid intoUser = some into →
      ¬ (w.view parseUuid).Names org source.text) :
    ReflTransGen StandingChange (w.view parseUuid)
      ((w.rekeysNext op fromUser intoUser rest).view parseUuid) := by
  cases hfrom : parseUuid fromUser with
  | none => rw [changes_of_unread hop (.inl hfrom)]
  | some source =>
    cases hinto : parseUuid intoUser with
    | none => rw [changes_of_unread hop (.inr hinto)]
    | some into =>
      rw [ownerView_rekeysNext hop hfrom hinto]
      have hmerge := merges_of_grants hop hfrom hinto hmoving
      exact .head (.skips op _ org rest hmerge rfl (hunnamed source into hfrom hinto))
        (changes_of_grantsLeft rest)

end

theorem changes_of_rekeyReads
    (hop : w.ops op = some (.mergesGrants fromUser intoUser (.rekeyReads org rest)))
    (hinv : OwnerInv (w.view parseUuid))
    (hspelled : ∀ source, parseUuid fromUser = some source → fromUser = source.text)
    (h : w.runsGrants parseUuid op fromUser intoUser (.rekeyReads org rest) = some t) :
    ReflTransGen StandingChange (w.view parseUuid) (t.view parseUuid) := by
  simp only [runsGrants] at h
  split at h
  · next hnone =>
    cases h
    refine changes_of_skips hop rfl ?_
    rintro source into _ _ ⟨document, hdocument, _⟩
    cases hnone.symm.trans hdocument
  · next _ hdocument =>
    split at h
    · next hunchanged =>
      cases h
      refine changes_of_skips hop rfl ?_
      rintro source into hfrom hinto ⟨found, hfound, hnamed⟩
      cases hdocument.symm.trans hfound
      have hne := (hinv.merge op _ (merges_of_grants hop hfrom hinto rfl)).ne
      have htext := hspelled source hfrom
      rw [← htext] at hnamed
      have hrekey : mergedKey fromUser intoUser fromUser = some intoUser := by
        simp [mergedKey]
      refine not_ownerGrant_of_unchanged hunchanged hrekey ?_ hnamed
      rintro rfl
      exact hne (some.inj (hfrom.symm.trans hinto))
    · cases h
      rw [ownerView_goto_grants hop, setMerge_self]
      simp [view, hop, OrgOp.merge, GrantsPc.moving]

theorem changes_of_rekeyWrites {document : AccessConfig} (hop : w.ops op =
      some (.mergesGrants fromUser intoUser (.rekeyWrites org document rest)))
    (htombstoned : Tombstoned parseUuid w)
    (hfollow : GrantsFollow v5 parseUuid firstLoginJoin w (.runs op))
    (h : w.runsGrants parseUuid op fromUser intoUser (.rekeyWrites org document rest) = some t) :
    ReflTransGen StandingChange (w.view parseUuid) (t.view parseUuid) := by
  cases h
  have hops : (w.setDocument org document).ops op =
      some (.mergesGrants fromUser intoUser (.rekeyWrites org document rest)) := hop
  obtain ⟨source, into, hfrom, hinto, htext, htarget, ⟨found, hfound, hdocument⟩, hshared⟩ :=
    hfollow.rekeys op fromUser intoUser org document rest rfl hop
  obtain ⟨⟨row, hrow, _⟩, hthere⟩ := htombstoned op _ _ _ source into hop rfl hfrom hinto
  have hmerge := merges_of_grants hop hfrom hinto rfl
  rw [ownerView_rekeysNext hops hfrom hinto]
  have hchange : StandingChange (w.view parseUuid)
      (((w.setDocument org document).view parseUuid).setMerge op
        (some ⟨source, into, rest, .rekeying⟩)) := by
    rw [hdocument, htext, htarget]
    refine .rekeys op _ org rest found hmerge rfl rfl hfound ⟨?_, ?_⟩ ?_
    · simp [view, PeopleWorld.grantKeys, hrow]
    · simp [view, PeopleWorld.grantKeys, hthere]
    · intro other htakes
      exact hshared other (fun heq => htakes (.inl heq)) fun heq => htakes (.inr heq)
  exact .head hchange (changes_of_grantsLeft rest)

theorem ownerView_people {p : PeopleWorld} (hcalls : ∀ n, n ≠ call → p.calls n = w.people.calls n) :
    ({ w with people := p } : OrgWorld).view parseUuid =
      { w.view parseUuid with
        memberships := p.memberships
        keys := p.grantKeys
        merges := Function.update (w.view parseUuid).merges call
          ((w.ops call).bind (OrgOp.merge parseUuid (p.calls call))) } := by
  simp only [view, OwnerView.mk.injEq, true_and]
  funext n
  by_cases hn : n = call
  · subst hn
    simp
  · simp [update_of_ne hn, hcalls n hn]

theorem goto_of_starts {p q : PeopleWorld} (hne : fromUser ≠ intoUser)
    (h : p.starts call (.merge fromUser intoUser) = some q) :
    q = p.goto call (.merge fromUser intoUser .checkingTarget) := by
  simp only [PeopleWorld.starts] at h
  split at h
  · cases h
  · next hrequest => cases hrequest
  · next hrequest =>
    cases hrequest
    rw [if_neg hne] at h
    exact (some.inj h).symm

theorem merge_of_listing {c : Option PersonCall} :
    (OrgOp.mergesGrants fromUser intoUser .listing).merge parseUuid c = none := by
  simp only [OrgOp.merge]
  split
  · next hmoving => cases hmoving
  · rfl

theorem ownerView_listed (hop : w.ops op = some (.mergesGrants fromUser intoUser .listing))
    (orgs : List Uuid) :
    (({ w with people := w.people.goto op (.merge fromUser intoUser .checkingTarget) } :
        OrgWorld).goto op (.mergesGrants fromUser intoUser (.merging orgs))).view parseUuid =
      (w.view parseUuid).setMerge op
        ((OrgOp.mergesGrants fromUser intoUser (.merging orgs)).merge parseUuid
          (some (.merge fromUser intoUser .checkingTarget))) := by
  let p := w.people.goto op (.merge fromUser intoUser .checkingTarget)
  have hcalls : ∀ n, n ≠ op → p.calls n = w.people.calls n :=
    fun n hn => update_of_ne hn _ _
  have hops : ({ w with people := p } : OrgWorld).ops op =
      some (.mergesGrants fromUser intoUser .listing) := hop
  have hsame : ({ w with people := p } : OrgWorld).view parseUuid = w.view parseUuid := by
    rw [ownerView_people hcalls, hop, bind_some, merge_of_listing]
    refine setMerge_self ?_
    simp [view, hop, merge_of_listing]
  rw [ownerView_goto_grants hops, hsame]
  simp only [PeopleWorld.goto, update_self, p]

theorem changes_of_lists (hop : w.ops op = some (.mergesGrants fromUser intoUser .listing))
    (hfollow : GrantsFollow v5 parseUuid firstLoginJoin w (.runs op))
    (h : w.runsGrants parseUuid op fromUser intoUser .listing = some t) (hgood : t.failed = false) :
    ReflTransGen StandingChange (w.view parseUuid) (t.view parseUuid) := by
  have hnone : (w.view parseUuid).merges op = none := by
    simp [view, hop, merge_of_listing]
  simp only [runsGrants, lists] at h
  split at h
  · cases h
    cases hgood
  · next source hfrom =>
    split at h
    · cases h
      cases hgood
    · next hne =>
      obtain ⟨p, hp, rfl⟩ := map_eq_some_iff.mp h
      have hstarted := goto_of_starts hne hp
      subst hstarted
      rw [ownerView_listed hop]
      cases hinto : parseUuid intoUser with
      | none => rw [merge_of_unread (.inr hinto), setMerge_self hnone]
      | some into =>
        obtain ⟨happart, hthere, hfree⟩ :=
          hfollow.begins op fromUser intoUser source into rfl hop hfrom hinto
        simp only [OrgOp.merge, hfrom, hinto, GrantsPc.moving, map_some,
          getD_some]
        refine .single (.begins op _ rfl hnone happart ?_ ?_ ?_ ?_)
        · simp [view, PeopleWorld.grantKeys, hthere]
        · intro user htakes
          exact (hfree user htakes).1
        · intro user org htakes
          exact (hfree user htakes).2 org
        · intro org row hroot hrow
          have hentry := (InsertionMap.get?_eq_some_iff ..).mp hrow
          refine List.mem_filter.mpr ⟨List.mem_map.mpr ⟨(org, row), ?_, rfl⟩, by simpa using hroot⟩
          refine List.mem_map.mpr ⟨((source, org), row), ?_, rfl⟩
          exact List.mem_filter.mpr ⟨hentry, by simp⟩

/-- A statement of a merge about its grants. -/
theorem changes_of_runsGrants {pc : GrantsPc}
    (hop : w.ops op = some (.mergesGrants fromUser intoUser pc))
    (hinv : OwnerInv (w.view parseUuid)) (htombstoned : Tombstoned parseUuid w)
    (hfollow : GrantsFollow v5 parseUuid firstLoginJoin w (.runs op))
    (h : w.runsGrants parseUuid op fromUser intoUser pc = some t) (hgood : t.failed = false) :
    ReflTransGen StandingChange (w.view parseUuid) (t.view parseUuid) := by
  cases pc with
  | listing => exact changes_of_lists hop hfollow h hgood
  | merging => cases h
  | rekeyReads org rest =>
    refine changes_of_rekeyReads hop hinv ?_ h
    intro source hfrom
    exact hfollow.rereads op fromUser intoUser org rest source rfl hop hfrom
  | rekeyWrites => exact changes_of_rekeyWrites hop htombstoned hfollow h

end OrgSteps

end OrgWorld

end UserProfile
end StudioWeb
