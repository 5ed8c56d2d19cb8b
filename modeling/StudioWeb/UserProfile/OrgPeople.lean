import StudioWeb.UserProfile.OrgSteps

/-!
# What a statement of a sign-in or a merge changes of owners and their grants
-/

namespace StudioWeb
namespace UserProfile

open List Option Function PeopleWorld
open Relation (ReflTransGen)

/-- The people that a merge has read are those of the ids. -/
def MergePc.Of (source into : Option Uuid) : MergePc → Prop
  | .checkingTarget => True
  | .checkingSource target => into = some target
  | pc => ∀ m, pc.pair = some m → source = some m.fromUser ∧ into = some m.intoUser

/-- The merge of an operation is the call of that number, and nobody else merges. -/
def Pairs (parseUuid : String → Option Uuid) : Option OrgOp → Option PersonCall → Prop
  | some (.mergesGrants fromUser intoUser (.merging _)), call =>
    ∃ pc, call = some (.merge fromUser intoUser pc) ∧
      pc.Of (parseUuid fromUser) (parseUuid intoUser)
  | _, call => ∀ fromUser intoUser pc, call ≠ some (.merge fromUser intoUser pc)

namespace OrgWorld

def Paired (parseUuid : String → Option Uuid) (w : OrgWorld) : Prop :=
  ∀ n, Pairs parseUuid (w.ops n) (w.people.calls n)

def Awaits (w : OrgWorld) (call : Nat) : Prop :=
  ∃ fromUser intoUser orgs, w.ops call = some (.mergesGrants fromUser intoUser (.merging orgs))

section People

variable
  {v5 : String → Uuid}
  {parseUuid : String → Option Uuid}
  {trim : String → String}
  {firstLoginJoin : Option (Uuid × String)}
  {w t : OrgWorld}
  {p q : PeopleWorld}
  {b : PeopleAction}
  {call : Nat}
  {fromUser intoUser : String}
  {orgs : List Uuid}
  {pc next : MergePc}
  {m : MergePair}

theorem Paired.op_of_merge (h : Paired parseUuid w)
    (hcall : w.people.calls call = some (.merge fromUser intoUser pc)) :
    (∃ orgs, w.ops call = some (.mergesGrants fromUser intoUser (.merging orgs))) ∧
      pc.Of (parseUuid fromUser) (parseUuid intoUser) := by
  have hpairs := h call
  unfold Pairs at hpairs
  split at hpairs
  · next orgs hop =>
    obtain ⟨now, hnow, hof⟩ := hpairs
    cases hcall.symm.trans hnow
    exact ⟨⟨orgs, hop⟩, hof⟩
  · exact absurd hcall (hpairs _ _ _)

theorem Paired.not_awaits (h : Paired parseUuid w) (hcall : ∀ fromUser intoUser pc,
      w.people.calls call ≠ some (.merge fromUser intoUser pc)) :
    ¬ w.Awaits call := by
  rintro ⟨fromUser, intoUser, orgs, hop⟩
  have hpairs := h call
  rw [hop] at hpairs
  obtain ⟨pc, hmerge, _⟩ := hpairs
  exact hcall _ _ _ hmerge

theorem mem_grantKeys {key : String} {user : Uuid} :
    key ∈ p.grantKeys user ↔ (p.users user).isSome ∧ (key = user.text ∨
          ∃ id row, p.logins.get? id = some row ∧ row.userId = user ∧ row.subject = key) := by
  unfold grantKeys
  split
  · next hthere =>
    simp only [hthere, true_and, mem_cons, List.mem_map, loginsOf,
      mem_filter, decide_eq_true_eq]
    refine or_congr_right ?_
    constructor
    · rintro ⟨⟨id, row⟩, ⟨hentry, howner⟩, hsubject⟩
      exact ⟨id, row, (InsertionMap.get?_eq_some_iff ..).mpr hentry, howner, hsubject⟩
    · rintro ⟨id, row, hrow, howner, hsubject⟩
      exact ⟨(id, row), ⟨(InsertionMap.get?_eq_some_iff ..).mp hrow, howner⟩, hsubject⟩
  · next hnobody => simp [hnobody]

theorem calls_of_runsResolve {s : Sighting} {begun : Nat} {pc : ResolvePc}
    (h : p.runsResolve v5 firstLoginJoin call s begun pc = some q) :
    ∃ next, q.calls = Function.update p.calls call next ∧
      ∀ fromUser intoUser pc, next ≠ some (.merge fromUser intoUser pc) := by
  cases pc with
  | finding =>
    simp only [runsResolve] at h
    split at h
    · cases h
      exact ⟨none, rfl, by simp⟩
    · cases h
      exact ⟨_, rfl, by simp⟩
  | joinChecks =>
    simp only [runsResolve] at h
    split at h
    · cases h
      exact ⟨_, rfl, by simp⟩
    · cases h
      exact ⟨none, rfl, by simp⟩
  | joining =>
    simp only [runsResolve] at h
    split at h
    · cases h
    · cases h
      exact ⟨none, rfl, by simp⟩
  | creating => cases h
  | linking => cases h

/-- A merge goes on with the people of its ids, or stops. -/
def MergeGoes (parseUuid : String → Option Uuid) (fromUser intoUser : String)
    (next : Option PersonCall) : Prop :=
  next = none ∨ ∃ pc, next = some (.merge fromUser intoUser pc) ∧
      pc.Of (parseUuid fromUser) (parseUuid intoUser)

theorem calls_of_readsPeople (hof : pc.Of (parseUuid fromUser) (parseUuid intoUser))
    (h : p.readsPeople parseUuid call fromUser intoUser pc = some q) :
    ∃ next, q.calls = Function.update p.calls call next ∧
      MergeGoes parseUuid fromUser intoUser next := by
  cases pc with
  | checkingTarget =>
    simp only [readsPeople] at h
    split at h
    · cases h
      exact ⟨none, rfl, .inl rfl⟩
    · next _ hinto =>
      split at h
      · cases h
        exact ⟨_, rfl, .inr ⟨_, rfl, hinto⟩⟩
      · cases h
        exact ⟨none, rfl, .inl rfl⟩
  | checkingSource =>
    simp only [readsPeople] at h
    split at h
    · cases h
      exact ⟨none, rfl, .inl rfl⟩
    · next _ hsource =>
      split at h
      · cases h
        exact ⟨none, rfl, .inl rfl⟩
      · cases h
        refine ⟨_, rfl, .inr ⟨_, rfl, ?_⟩⟩
        rintro m ⟨⟩
        exact ⟨hsource, hof⟩
  | _ => cases h

variable {source into : Option Uuid}

section

variable (h : source = some m.fromUser ∧ into = some m.intoUser)
include h

theorem of_nextLogin
 (rest : List (Uuid × LoginRow)) :
    (MergePc.nextLogin m rest).Of source into := by
  cases rest with
  | nil =>
    rintro n ⟨⟩
    exact h
  | cons =>
    rintro n ⟨⟩
    exact h

theorem of_nextAlias
 (rest : List (Uuid × AliasRow)) :
    (MergePc.nextAlias m rest).Of source into := by
  cases rest with
  | nil =>
    rintro n ⟨⟩
    exact h
  | cons =>
    rintro n ⟨⟩
    exact h

theorem of_nextMembership
 (rest : List (Uuid × MembershipRow)) :
    (MergePc.nextMembership m rest).Of source into := by
  cases rest with
  | nil =>
    rintro n ⟨⟩
    exact h
  | cons =>
    rintro n ⟨⟩
    exact h

end

theorem calls_of_runsMerge (hof : pc.Of (parseUuid fromUser) (parseUuid intoUser))
    (h : p.runsMerge call (.merge fromUser intoUser) pc = some q) :
    ∃ next, q.calls = Function.update p.calls call next ∧
      MergeGoes parseUuid fromUser intoUser next := by
  cases pc with
  | checkingTarget => cases h
  | checkingSource => cases h
  | listingLogins m =>
    cases h
    exact ⟨_, rfl, .inr ⟨_, rfl, of_nextLogin (hof m rfl) _⟩⟩
  | movingLogins m =>
    cases h
    exact ⟨_, rfl, .inr ⟨_, rfl, of_nextLogin (m := m.countsLogin) (hof m rfl) _⟩⟩
  | listingAliases m =>
    cases h
    exact ⟨_, rfl, .inr ⟨_, rfl, of_nextAlias (hof m rfl) _⟩⟩
  | movingAliases m =>
    cases h
    exact ⟨_, rfl, .inr ⟨_, rfl, of_nextAlias (hof m rfl) _⟩⟩
  | listingMemberships m =>
    cases h
    exact ⟨_, rfl, .inr ⟨_, rfl, of_nextMembership (hof m rfl) _⟩⟩
  | recordChecks =>
    simp only [runsMerge] at h
    split at h
    · cases h
      exact ⟨_, rfl, .inr ⟨_, rfl, hof⟩⟩
    · cases h
      exact ⟨none, rfl, .inl rfl⟩
  | recording =>
    cases h
    exact ⟨_, rfl, .inr ⟨_, rfl, hof⟩⟩
  | removing m =>
    cases h
    exact ⟨_, rfl, .inr ⟨_, rfl, of_nextMembership (hof m rfl) _⟩⟩
  | tombstoning =>
    cases h
    exact ⟨none, rfl, .inl rfl⟩

theorem Paired.pairs_of_not_merge {next : Option PersonCall} (h : Paired parseUuid w)
    (hbefore : ∀ fromUser intoUser pc, w.people.calls call ≠ some (.merge fromUser intoUser pc))
    (hnext : ∀ fromUser intoUser pc, next ≠ some (.merge fromUser intoUser pc)) :
    Pairs parseUuid (w.ops call) next := by
  have hfree := h.not_awaits hbefore
  unfold Pairs
  split
  · next fromUser intoUser orgs hop => exact absurd ⟨fromUser, intoUser, orgs, hop⟩ hfree
  · exact hnext

/-- A step of a call leaves the others, and the call goes on as its operation awaits, or
stops. -/
theorem Paired.calls_of_step (h : Paired parseUuid w)
    (hstep : w.people.step v5 parseUuid trim firstLoginJoin b = some q)
    (hb : ∀ call fromUser intoUser, b ≠ .starts call (.merge fromUser intoUser)) :
    ∃ next, q.calls = Function.update w.people.calls b.call next ∧
      (next = none ∨ Pairs parseUuid (w.ops b.call) next) := by
  cases b with
  | starts call =>
    simp only [PeopleWorld.step, PeopleWorld.starts] at hstep
    split at hstep
    · cases hstep
    · next hcall =>
      cases hstep
      refine ⟨_, rfl, .inr (h.pairs_of_not_merge ?_ (by simp))⟩
      simp [PeopleAction.call, hcall]
    · next fromUser intoUser _ => exact absurd rfl (hb call fromUser intoUser)
  | creates =>
    simp only [PeopleWorld.step, PeopleWorld.creates] at hstep
    split at hstep
    · next hcall _ =>
      cases hstep
      refine ⟨_, rfl, .inr (h.pairs_of_not_merge ?_ (by simp))⟩
      simp [PeopleAction.call, hcall]
    · cases hstep
  | links =>
    simp only [PeopleWorld.step, PeopleWorld.links] at hstep
    split at hstep
    · next hcall =>
      split at hstep
      · cases hstep
        exact ⟨none, rfl, .inl rfl⟩
      · cases hstep
        refine ⟨_, rfl, .inr (h.pairs_of_not_merge ?_ (by simp))⟩
        simp [PeopleAction.call, hcall]
    · cases hstep
  | runs call =>
    simp only [PeopleWorld.step, PeopleWorld.runs] at hstep
    split at hstep
    · next _ _ _ hcall =>
      obtain ⟨next, hnext, hquiet⟩ := calls_of_runsResolve hstep
      refine ⟨next, hnext, .inr (h.pairs_of_not_merge ?_ hquiet)⟩
      simp [PeopleAction.call, hcall]
    · next fromUser intoUser _ hcall =>
      obtain ⟨⟨orgs, hop⟩, hof⟩ := h.op_of_merge hcall
      have hgoes : ∃ next, q.calls = Function.update w.people.calls call next ∧
          MergeGoes parseUuid fromUser intoUser next := by
        rcases or_eq_some_iff.mp hstep with hreads | ⟨_, hruns⟩
        · exact calls_of_readsPeople hof hreads
        · exact calls_of_runsMerge hof hruns
      obtain ⟨next, hnext, hgoes⟩ := hgoes
      refine ⟨next, hnext, hgoes.imp id fun hmerge => ?_⟩
      simp only [PeopleAction.call, hop]
      exact hmerge
    · cases hstep
  | fails =>
    simp only [PeopleWorld.step, PeopleWorld.fails] at hstep
    split at hstep
    · cases hstep
      exact ⟨none, rfl, .inl rfl⟩
    · cases hstep
      exact ⟨none, rfl, .inl rfl⟩
    · cases hstep
      exact ⟨none, rfl, .inl rfl⟩
    · cases hstep

theorem merge_of_not_awaits {c d : Option PersonCall} (hfree : ¬ w.Awaits call) :
    (w.ops call).bind (OrgOp.merge parseUuid c) =
      (w.ops call).bind (OrgOp.merge parseUuid d) := by
  cases hop : w.ops call with
  | none => rfl
  | some o =>
    cases o with
    | changes => rfl
    | mergesGrants fromUser intoUser pc =>
      cases pc with
      | merging orgs => exact absurd ⟨fromUser, intoUser, orgs, hop⟩ hfree
      | _ => rfl

theorem ownerView_of_not_awaits (hfree : ¬ w.Awaits b.call)
    (hcalls : ∀ n, n ≠ b.call → p.calls n = w.people.calls n) :
    (w.settles b p).view parseUuid =
      { w.view parseUuid with
        memberships := p.memberships
        keys := p.grantKeys } := by
  have hsettles : (w.settles b p).view parseUuid =
      ({ w with people := p } : OrgWorld).view parseUuid := by
    unfold settles
    split
    · next hop _ => exact absurd ⟨_, _, _, hop⟩ hfree
    · split
      · rfl
      · rfl
  rw [hsettles, ownerView_people hcalls,
    @merge_of_not_awaits _ _ _ (p.calls b.call) (w.people.calls b.call) hfree]
  simp only [OwnerView.mk.injEq, true_and]
  exact update_eq_self ..

theorem ownerView_goes (hop : w.ops call = some (.mergesGrants fromUser intoUser (.merging orgs)))
    (hcalls : ∀ n, n ≠ call → p.calls n = w.people.calls n)
    (hcall : p.calls call = some (.merge fromUser intoUser next)) :
    (w.settles (.runs call) p).view parseUuid =
      ({ w.view parseUuid with
        memberships := p.memberships
        keys := p.grantKeys } : OwnerView).setMerge call
          ((OrgOp.mergesGrants fromUser intoUser (.merging orgs)).merge parseUuid
            (some (.merge fromUser intoUser next))) := by
  have hsettles : w.settles (.runs call) p = { w with people := p } := by
    simp [settles, PeopleAction.call, hop, hcall]
  rw [hsettles, ownerView_people hcalls, hop, hcall]
  rfl

theorem failed_of_settles
    (hop : w.ops b.call = some (.mergesGrants fromUser intoUser (.merging orgs)))
    (hcall : p.calls b.call = none) (hends : w.endsMerge b = false) :
    (w.settles b p).failed = true := by
  simp [settles, hop, hcall, hends, errs]

theorem merged_of_rekeying {n : Nat} {g : GrantMerge} (htombstoned : Tombstoned parseUuid w)
    (hmerge : (w.view parseUuid).merges n = some g) (hstage : g.stage = .rekeying) :
    ∃ row, w.people.users g.fromUser = some row ∧ row.mergedInto.isSome := by
  obtain ⟨o, hop, ho⟩ := bind_eq_some_iff.mp hmerge
  cases o with
  | changes => cases ho
  | mergesGrants _ _ pc =>
    simp only [OrgOp.merge] at ho
    split at ho
    · next _ _ _ _ hfrom hinto hmoving =>
      cases ho
      cases pc with
      | listing => cases hmoving
      | merging =>
        simp only [GrantsPc.moving, some.injEq, Prod.mk.injEq] at hmoving
        rw [← hmoving.2] at hstage
        cases hcall : w.people.calls n with
        | none => simp [hcall] at hstage
        | some c =>
          simp only [hcall, map_some, getD_some] at hstage
          cases c with
          | resolve => cases hstage
          | merge _ _ pc => cases pc <;> cases hstage
      | rekeyReads => exact (htombstoned n _ _ _ _ _ hop rfl hfrom hinto).1
      | rekeyWrites => exact (htombstoned n _ _ _ _ _ hop rfl hfrom hinto).1
    · cases ho

theorem mem_grantKeys_creates {userId : Uuid} {row : UserRow} (hmerges : MergeInv (p.view v5))
    (hnew : p.users userId = none) (husers : q.users = Function.update p.users userId (some row))
    (hlogins : q.logins = p.logins) (other : Uuid) (key : String) :
    key ∈ q.grantKeys other ↔
      key ∈ p.grantKeys other ∨ (other = userId ∧ key = userId.text) := by
  rw [mem_grantKeys, mem_grantKeys, hlogins, husers]
  by_cases hother : other = userId
  · subst hother
    have hnone : ¬ ∃ id found, p.logins.get? id = some found ∧ found.userId = other ∧
        found.subject = key := by
      rintro ⟨id, found, hfound, rfl, _⟩
      have hlives := hmerges.living id found hfound
      simp [PeopleView.Lives, PeopleView.pointer, PeopleWorld.view, hnew] at hlives
    simp [hnew, hnone]
  · simp [hother]

theorem mem_grantKeys_links {id : Uuid} {row : LoginRow} (hthere : (p.users row.userId).isSome)
    (hlogin : p.logins.get? id = none) (husers : q.users = p.users)
    (hlogins : q.logins = p.logins.set id row) (other : Uuid) (key : String) :
    key ∈ q.grantKeys other ↔
      key ∈ p.grantKeys other ∨ (other = row.userId ∧ key = row.subject) := by
  rw [mem_grantKeys, mem_grantKeys, husers, hlogins]
  constructor
  · rintro ⟨hother, htext | ⟨found, old, hget, howner, hsubject⟩⟩
    · exact .inl ⟨hother, .inl htext⟩
    · rw [InsertionMap.get?_set] at hget
      split at hget
      · cases hget
        exact .inr ⟨howner.symm, hsubject.symm⟩
      · exact .inl ⟨hother, .inr ⟨found, old, hget, howner, hsubject⟩⟩
  · rintro (⟨hother, htext | ⟨found, old, hget, howner, hsubject⟩⟩ | ⟨rfl, rfl⟩)
    · exact ⟨hother, .inl htext⟩
    · refine ⟨hother, .inr ⟨found, old, ?_, howner, hsubject⟩⟩
      rw [InsertionMap.get?_set, if_neg, hget]
      rintro rfl
      rw [hlogin] at hget
      cases hget
    · exact ⟨hthere, .inr ⟨id, row, InsertionMap.get?_set_self .., rfl, rfl⟩⟩

theorem changes_of_creates {userId : Uuid} (hpaired : Paired parseUuid w)
    (hmerges : MergeInv (w.people.view v5)) (htombstoned : Tombstoned parseUuid w)
    (hfollow : GrantsFollow v5 parseUuid firstLoginJoin w (.person (.creates call userId)))
    (hcalls : ∀ n, n ≠ call → p.calls n = w.people.calls n)
    (h : w.people.creates trim call userId = some p) :
    ReflTransGen StandingChange (w.view parseUuid)
      ((w.settles (.creates call userId) p).view parseUuid) := by
  simp only [PeopleWorld.creates] at h
  split at h
  · next _ _ hcall hnew =>
    have hfree : ¬ w.Awaits call := hpaired.not_awaits (by simp [hcall])
    rw [ownerView_of_not_awaits (b := .creates call userId) hfree hcalls]
    cases h
    refine .single (.links userId userId.text _ ?_ ?_ ?_)
    · exact mem_grantKeys_creates hmerges hnew rfl rfl
    · intro org hroot
      exact hfollow.creates call userId org rfl hroot
    · rintro n g hmerge hstage rfl
      obtain ⟨row, hrow, _⟩ := merged_of_rekeying htombstoned hmerge hstage
      cases hnew.symm.trans hrow
  · cases h

theorem changes_of_links {now : Int} (hpaired : Paired parseUuid w)
    (htombstoned : Tombstoned parseUuid w)
    (hfollow : GrantsFollow v5 parseUuid firstLoginJoin w (.person (.links call now)))
    (hcalls : ∀ n, n ≠ call → p.calls n = w.people.calls n)
    (h : w.people.links v5 firstLoginJoin call now = some p) :
    ReflTransGen StandingChange (w.view parseUuid)
      ((w.settles (.links call now) p).view parseUuid) := by
  simp only [PeopleWorld.links] at h
  split at h
  · next s begun userId hcall =>
    have hfree : ¬ w.Awaits call := hpaired.not_awaits (by simp [hcall])
    obtain ⟨hlogin, ⟨person, hperson, hliving⟩, _⟩ :=
      (hfollow.apart _ rfl).links call now s begun userId rfl hcall
    have hlinked : (w.people.setLogin (loginId v5 s) (newLogin s userId now)).logins =
          w.people.logins.set (loginId v5 s) (newLogin s userId now) := by
      simp only [setLogin, hlogin]
      rfl
    obtain ⟨husers, hlogins, hmemberships⟩ : p.users = w.people.users ∧
        p.logins = w.people.logins.set (loginId v5 s) (newLogin s userId now) ∧
        p.memberships = w.people.memberships := by
      split at h
      · cases h
        exact ⟨rfl, hlinked, rfl⟩
      · cases h
        exact ⟨rfl, hlinked, rfl⟩
    rw [ownerView_of_not_awaits (b := .links call now) hfree hcalls, hmemberships]
    refine .single (.links userId s.subject _ ?_ ?_ ?_)
    · have hthere : (w.people.users (newLogin s userId now).userId).isSome := by
        simp [newLogin, hperson]
      exact mem_grantKeys_links hthere hlogin husers hlogins
    · intro org hroot
      exact hfollow.links call now s begun userId org rfl hcall hroot
    · rintro n g hmerge hstage rfl
      obtain ⟨row, hrow, hmerged⟩ := merged_of_rekeying htombstoned hmerge hstage
      cases hperson.symm.trans hrow
      rw [hliving] at hmerged
      cases hmerged
  · cases h

theorem same_of_not_awaits (hfree : ¬ w.Awaits b.call)
    (hcalls : ∀ n, n ≠ b.call → p.calls n = w.people.calls n)
    (hmemberships : p.memberships = w.people.memberships)
    (hkeys : p.grantKeys = w.people.grantKeys) :
    ReflTransGen StandingChange (w.view parseUuid) ((w.settles b p).view parseUuid) := by
  rw [ownerView_of_not_awaits hfree hcalls, hmemberships, hkeys]
  exact .refl

theorem changes_of_runsResolve {s : Sighting} {begun : Nat} {pc : ResolvePc}
    (hcall : w.people.calls call = some (.resolve s begun pc)) (hpaired : Paired parseUuid w)
    (hfollow : GrantsFollow v5 parseUuid firstLoginJoin w (.person (.runs call)))
    (hcalls : ∀ n, n ≠ call → p.calls n = w.people.calls n)
    (h : w.people.runsResolve v5 firstLoginJoin call s begun pc = some p) :
    ReflTransGen StandingChange (w.view parseUuid)
      ((w.settles (.runs call) p).view parseUuid) := by
  have hfree : ¬ w.Awaits call := hpaired.not_awaits (by simp [hcall])
  cases pc with
  | finding =>
    simp only [runsResolve] at h
    split at h
    · cases h
      exact same_of_not_awaits hfree hcalls rfl rfl
    · cases h
      exact same_of_not_awaits hfree hcalls rfl rfl
  | joinChecks =>
    simp only [runsResolve] at h
    split at h
    · cases h
      exact same_of_not_awaits hfree hcalls rfl rfl
    · cases h
      exact same_of_not_awaits hfree hcalls rfl rfl
  | joining userId =>
    simp only [runsResolve] at h
    split at h
    · cases h
    · next org role =>
      have howner : (Standing.active role).isActiveOwner = true ↔
          OwnerRow (some ⟨role, STATUS_ACTIVE, SOURCE_FIRST_LOGIN⟩) := by
        simp [Standing.active, Standing.isActiveOwner, OwnerRow, MembershipRow.isActiveOwner]
      rw [ownerView_of_not_awaits (b := .runs call) hfree hcalls]
      cases h
      refine .single (.plain userId org (some _) ?_)
      intro hroot
      have hfollows := hfollow.joins call s begun userId org role rfl hcall rfl hroot
      refine ⟨hfollows.free, ?_, ?_⟩
      · intro k owner hk
        rw [hfollows.pending k owner hk]
        exact howner
      · intro hpends
        exact (hfollows.agrees rfl hpends).trans howner
  | creating => cases h
  | linking => cases h

theorem merge_of_merging {source into : Uuid} (hfrom : parseUuid fromUser = some source)
    (hinto : parseUuid intoUser = some into) :
    (OrgOp.mergesGrants fromUser intoUser (.merging orgs)).merge parseUuid
        (some (.merge fromUser intoUser pc)) =
      some ⟨source, into, orgs, pc.stage⟩ := by
  simp [OrgOp.merge, hfrom, hinto, GrantsPc.moving, PersonCall.stage]

section

variable
  (hop : w.ops call = some (.mergesGrants fromUser intoUser (.merging orgs)))
  (hcall : w.people.calls call = some (.merge fromUser intoUser pc))
include hop hcall

theorem same_of_goes
    (hnext : p.calls = Function.update w.people.calls call (some (.merge fromUser intoUser next)))
    (hmemberships : p.memberships = w.people.memberships) (hkeys : p.grantKeys = w.people.grantKeys)
    (hstage : next.stage = pc.stage) :
    ReflTransGen StandingChange (w.view parseUuid)
      ((w.settles (.runs call) p).view parseUuid) := by
  have hcalls : ∀ n, n ≠ call → p.calls n = w.people.calls n := by
    intro n hn
    rw [hnext, update_of_ne hn]
  have hsame : (w.view parseUuid).setMerge call
      ((OrgOp.mergesGrants fromUser intoUser (.merging orgs)).merge parseUuid
        (some (.merge fromUser intoUser next))) = w.view parseUuid := by
    refine setMerge_self ?_
    simp [view, hop, hcall, OrgOp.merge, GrantsPc.moving, PersonCall.stage, hstage]
  have hgoes : (w.settles (.runs call) p).view parseUuid = w.view parseUuid := by
    rw [ownerView_goes hop hcalls (by rw [hnext, update_self]), hmemberships, hkeys]
    exact hsame
  rw [hgoes]

theorem failed_of_finish (hpc : ∀ m, pc ≠ .tombstoning m)
    (hgood : (w.settles (.runs call) (w.people.finish call)).failed = false) : False := by
  have hends : w.endsMerge (.runs call) = false := by
    simp only [endsMerge, hcall]
    cases pc with
    | tombstoning m => exact absurd rfl (hpc m)
    | _ => rfl
  have hstopped : (w.people.finish call).calls call = none := update_self ..
  rw [failed_of_settles hop hstopped hends] at hgood
  cases hgood

theorem changes_of_readsPeople
 (h : w.people.readsPeople parseUuid call fromUser intoUser pc = some p)
    (hgood : (w.settles (.runs call) p).failed = false) :
    ReflTransGen StandingChange (w.view parseUuid)
      ((w.settles (.runs call) p).view parseUuid) := by
  cases pc with
  | checkingTarget =>
    simp only [readsPeople] at h
    split at h
    · cases h
      exact (failed_of_finish hop hcall (by simp) hgood).elim
    · split at h
      · cases h
        exact same_of_goes hop hcall rfl rfl rfl rfl
      · cases h
        exact (failed_of_finish hop hcall (by simp) hgood).elim
  | checkingSource =>
    simp only [readsPeople] at h
    split at h
    · cases h
      exact (failed_of_finish hop hcall (by simp) hgood).elim
    · split at h
      · cases h
        exact (failed_of_finish hop hcall (by simp) hgood).elim
      · cases h
        exact same_of_goes hop hcall rfl rfl rfl rfl
  | _ => cases h

end

theorem stage_nextLogin (rest : List (Uuid × LoginRow)) :
    (MergePc.nextLogin m rest).stage = .opening := by
  cases rest with
  | nil => rfl
  | cons => rfl

theorem stage_nextAlias (rest : List (Uuid × AliasRow)) :
    (MergePc.nextAlias m rest).stage = .opening := by
  cases rest with
  | nil => rfl
  | cons => rfl

theorem stage_nextMembership (rest : List (Uuid × MembershipRow)) :
    (MergePc.nextMembership m rest).stage = .rows rest := by
  cases rest with
  | nil => rfl
  | cons => rfl

theorem rowsLeft_membershipsOf (user : Uuid) :
    RowsLeft (w.view parseUuid) user (w.people.membershipsOf user) := by
  constructor
  · simp only [membershipsOf, List.map_map]
    have hnodup : ((w.people.memberships.entries.filter fun m => m.1.1 = user).map
        Prod.fst).Nodup :=
      w.people.memberships.keys_nodup.sublist (filter_sublist.map Prod.fst)
    have hkeys := hnodup.map_on (f := Prod.snd) ?_
    · simpa [List.map_map, Function.comp_def] using hkeys
    · intro x hx y hy hsame
      obtain ⟨e, he, rfl⟩ := List.mem_map.mp hx
      obtain ⟨e', he', rfl⟩ := List.mem_map.mp hy
      have hfirst : e.1.1 = user := by simpa using (mem_filter.mp he).2
      have hsecond : e'.1.1 = user := by simpa using (mem_filter.mp he').2
      exact Prod.ext (hfirst.trans hsecond.symm) hsame
  · intro org row _
    simp only [view, membershipsOf, InsertionMap.get?_eq_some_iff, List.mem_map,
      mem_filter, decide_eq_true_eq]
    constructor
    · intro hentry
      exact ⟨((user, org), row), ⟨hentry, rfl⟩, rfl⟩
    · rintro ⟨⟨⟨other, place⟩, found⟩, ⟨hentry, hother⟩, heq⟩
      cases heq
      cases hother
      exact hentry

theorem mem_grantKeys_moves {login : Uuid × LoginRow} {rest : List (Uuid × LoginRow)}
    (hleft : Left (p.view v5) m (login :: rest)) (key : String) :
    (∀ other, other ≠ m.fromUser → other ≠ m.intoUser →
      (key ∈ (p.movesLogin m login).grantKeys other ↔ key ∈ p.grantKeys other)) ∧
      ((p.users m.fromUser).isSome → (p.users m.intoUser).isSome →
        ((key ∈ (p.movesLogin m login).grantKeys m.fromUser ∨
            key ∈ (p.movesLogin m login).grantKeys m.intoUser) ↔
          (key ∈ p.grantKeys m.fromUser ∨ key ∈ p.grantKeys m.intoUser))) := by
  obtain ⟨old, hold, howner⟩ := hleft.owned login mem_cons_self
  have hrow : p.logins.get? login.1 = some old := hold
  have hget : ∀ id, (p.movesLogin m login).logins.get? id =
      if id = login.1 then
        some { login.2 with
          provider := old.provider, subject := old.subject, userId := m.intoUser }
      else
        p.logins.get? id := by
    intro id
    simp only [movesLogin, setLogin, InsertionMap.get?_set, hrow,
      upsertedLogin]
  constructor
  · intro other hfrom hinto
    rw [mem_grantKeys, mem_grantKeys]
    refine and_congr_right fun _ => or_congr_right ?_
    constructor
    · rintro ⟨id, row, hid, huser, hsubject⟩
      rw [hget] at hid
      split at hid
      · cases hid
        exact absurd huser.symm hinto
      · exact ⟨id, row, hid, huser, hsubject⟩
    · rintro ⟨id, row, hid, huser, hsubject⟩
      refine ⟨id, row, ?_, huser, hsubject⟩
      rw [hget, if_neg, hid]
      rintro rfl
      cases hrow.symm.trans hid
      exact hfrom (huser.symm.trans howner)
  · intro hfrom hinto
    simp only [mem_grantKeys]
    have husers : (p.movesLogin m login).users = p.users := rfl
    simp only [husers, hfrom, hinto, true_and]
    constructor
    · rintro ((htext | ⟨id, row, hid, huser, hsubject⟩) | (htext | ⟨id, row, hid, huser, hsubject⟩))
      · exact .inl (.inl htext)
      · rw [hget] at hid
        split at hid
        · next _ =>
          cases hid
          exact .inl (.inr ⟨login.1, old, hrow, howner, hsubject⟩)
        · exact .inl (.inr ⟨id, row, hid, huser, hsubject⟩)
      · exact .inr (.inl htext)
      · rw [hget] at hid
        split at hid
        · cases hid
          exact .inl (.inr ⟨login.1, old, hrow, howner, hsubject⟩)
        · exact .inr (.inr ⟨id, row, hid, huser, hsubject⟩)
    · rintro ((htext | ⟨id, row, hid, huser, hsubject⟩) | (htext | ⟨id, row, hid, huser, hsubject⟩))
      · exact .inl (.inl htext)
      · by_cases hsame : id = login.1
        · subst hsame
          cases hrow.symm.trans hid
          refine .inr (.inr ⟨login.1, _, (hget _).trans (if_pos rfl), rfl, hsubject⟩)
        · exact .inl (.inr ⟨id, row, by rw [hget, if_neg hsame, hid], huser, hsubject⟩)
      · exact .inr (.inl htext)
      · by_cases hsame : id = login.1
        · subst hsame
          cases hrow.symm.trans hid
          refine .inr (.inr ⟨login.1, _, (hget _).trans (if_pos rfl), rfl, hsubject⟩)
        · exact .inr (.inr ⟨id, row, by rw [hget, if_neg hsame, hid], huser, hsubject⟩)

theorem ownerView_goesTo {stage : GrantStage} (r : PeopleWorld)
    (hof : parseUuid fromUser = some m.fromUser ∧ parseUuid intoUser = some m.intoUser)
    (hop : w.ops call = some (.mergesGrants fromUser intoUser (.merging orgs)))
    (hcalls : r.calls = w.people.calls) (hkeys : r.grantKeys = w.people.grantKeys)
    (hstage : next.stage = stage) :
    (w.settles (.runs call) (r.goto call (.merge fromUser intoUser next))).view parseUuid =
      ({ w.view parseUuid with memberships := r.memberships } : OwnerView).setMerge call
        (some ⟨m.fromUser, m.intoUser, orgs, stage⟩) := by
  have hothers : ∀ n, n ≠ call →
      (r.goto call (.merge fromUser intoUser next)).calls n = w.people.calls n := by
    intro n hn
    exact (update_of_ne hn _ _).trans (congrFun hcalls n)
  rw [ownerView_goes hop hothers (update_self ..), merge_of_merging hof.1 hof.2, hstage]
  simp only [OwnerView.setMerge, OwnerView.mk.injEq, true_and, and_true]
  exact ⟨rfl, hkeys⟩

section

variable (hof : parseUuid fromUser = some m.fromUser ∧ parseUuid intoUser = some m.intoUser)
include hof

section

variable (hop : w.ops call = some (.mergesGrants fromUser intoUser (.merging orgs)))
include hop

theorem merges_of_call (hcall : w.people.calls call = some (.merge fromUser intoUser pc)) :
    (w.view parseUuid).merges call = some ⟨m.fromUser, m.intoUser, orgs, pc.stage⟩ := by
  simp [view, hop, hcall, merge_of_merging hof.1 hof.2]

theorem changes_of_movesLogin {login : Uuid × LoginRow} {rest : List (Uuid × LoginRow)}
    (hcall : w.people.calls call = some (.merge fromUser intoUser (.movingLogins m login rest)))
    (hmerges : MergeInv (w.people.view v5)) :
    ReflTransGen StandingChange (w.view parseUuid)
      ((w.settles (.runs call) ((w.people.movesLogin m login).goto call
        (.merge fromUser intoUser (.nextLogin m.countsLogin rest)))).view parseUuid) := by
  let p := (w.people.movesLogin m login).goto call
    (.merge fromUser intoUser (.nextLogin m.countsLogin rest))
  have hmerging : (w.people.view v5).Merges call m (some (login :: rest)) := view_standing hcall
  have hleft := hmerges.left call m _ hmerging
  obtain ⟨_, hfrom, hinto⟩ := hmerges.apart call m _ hmerging
  obtain ⟨source, hsource, _⟩ := lives_iff.mp hfrom
  obtain ⟨target, htarget, _⟩ := lives_iff.mp hinto
  have hmerge := merges_of_call hof hop hcall
  have hcalls : ∀ n, n ≠ call → p.calls n = w.people.calls n :=
    fun n hn => update_of_ne hn _ _
  have hview : (w.settles (.runs call) p).view parseUuid =
      { w.view parseUuid with keys := (w.people.movesLogin m login).grantKeys } := by
    rw [ownerView_goes hop hcalls (update_self ..), merge_of_merging hof.1 hof.2,
      stage_nextLogin]
    exact setMerge_self hmerge
  rw [hview]
  refine .single (.moves call _ _ hmerge (by simp [MergePc.stage]) ?_ ?_)
  · intro other key htakes
    exact (mem_grantKeys_moves hleft key).1 other (fun heq => htakes (.inl heq))
      fun heq => htakes (.inr heq)
  · intro key
    exact (mem_grantKeys_moves hleft key).2 (by simp [hsource]) (by simp [htarget])

theorem changes_of_tombstones
    (hcall : w.people.calls call = some (.merge fromUser intoUser (.tombstoning m)))
    (hmerges : MergeInv (w.people.view v5)) :
    ReflTransGen StandingChange (w.view parseUuid)
      ((w.settles (.runs call) ((w.people.setUser m.fromUser
        (tombstone m)).finish call)).view parseUuid) := by
  let p := (w.people.setUser m.fromUser (tombstone m)).finish call
  have hmerging : (w.people.view v5).Merges call m (some []) := view_standing hcall
  have hleft := hmerges.left call m _ hmerging
  obtain ⟨source, hsource, _⟩ := lives_iff.mp (hmerges.apart call m _ hmerging).2.1
  have hmerge := merges_of_call hof hop hcall
  have hkeys : p.grantKeys = w.people.grantKeys := by
    funext user
    by_cases huser : user = m.fromUser
    · subst huser
      simp [p, grantKeys, setUser, PeopleWorld.finish, hsource,
        loginsOf]
    · simp [p, grantKeys, setUser, PeopleWorld.finish,
        update_of_ne huser, loginsOf]
  have hcalls : ∀ n, n ≠ call → p.calls n = w.people.calls n :=
    fun n hn => update_of_ne hn _ _
  have hsettles : w.settles (.runs call) p =
      ({ w with people := p } : OrgWorld).rekeysNext call fromUser intoUser orgs := by
    have hended : p.calls call = none := update_self ..
    simp [settles, PeopleAction.call, hop, hended, endsMerge, hcall]
  have hops : ({ w with people := p } : OrgWorld).ops call =
      some (.mergesGrants fromUser intoUser (.merging orgs)) := hop
  have hview : (w.settles (.runs call) p).view parseUuid =
      (w.view parseUuid).setMerge call (grantsLeft m.fromUser m.intoUser orgs) := by
    rw [hsettles, ownerView_rekeysNext hops hof.1 hof.2, ownerView_people hcalls, hkeys]
    simp [OwnerView.setMerge, p, PeopleWorld.finish, setUser, view]
  rw [hview]
  refine .head (.tombstones call _ hmerge rfl ?_) (changes_of_grantsLeft orgs)
  intro key hkey
  obtain ⟨_, htext | ⟨id, row, hid, howner, _⟩⟩ := mem_grantKeys.mp hkey
  · exact htext
  · exact absurd (hleft.all id row hid howner) not_mem_nil

end

end

theorem changes_of_runsMerge (hof : pc.Of (parseUuid fromUser) (parseUuid intoUser))
    (hop : w.ops call = some (.mergesGrants fromUser intoUser (.merging orgs)))
    (hcall : w.people.calls call = some (.merge fromUser intoUser pc))
    (hmerges : MergeInv (w.people.view v5))
    (hfollow : GrantsFollow v5 parseUuid firstLoginJoin w (.person (.runs call)))
    (h : w.people.runsMerge call (.merge fromUser intoUser) pc = some p)
    (hgood : (w.settles (.runs call) p).failed = false) :
    ReflTransGen StandingChange (w.view parseUuid)
      ((w.settles (.runs call) p).view parseUuid) := by
  cases pc with
  | checkingTarget => cases h
  | checkingSource => cases h
  | listingLogins =>
    cases h
    exact same_of_goes hop hcall rfl rfl rfl (stage_nextLogin _)
  | movingLogins m =>
    cases h
    exact changes_of_movesLogin (hof m rfl) hop hcall hmerges
  | listingAliases =>
    cases h
    exact same_of_goes hop hcall rfl rfl rfl (stage_nextAlias _)
  | movingAliases =>
    cases h
    exact same_of_goes hop hcall rfl rfl rfl (stage_nextAlias _)
  | listingMemberships m =>
    cases h
    rw [ownerView_goesTo w.people (hof m rfl) hop rfl rfl (stage_nextMembership _)]
    exact .single (.lists call _ _ (merges_of_call (hof m rfl) hop hcall)
      (rowsLeft_membershipsOf m.fromUser))
  | recordChecks =>
    simp only [runsMerge] at h
    split at h
    · cases h
      exact same_of_goes hop hcall rfl rfl rfl rfl
    · cases h
      exact (failed_of_finish hop hcall (by simp) hgood).elim
  | recording m row rest =>
    cases h
    rw [ownerView_goesTo (w.people.recordsMembership m row) (hof m rfl) hop rfl rfl rfl]
    refine .single (.records call _ row rest _ (merges_of_call (hof m rfl) hop hcall) rfl ?_)
    intro hroot
    obtain ⟨hactive, hinto⟩ := hfollow.records call fromUser intoUser m row rest rfl hcall hroot
    refine ⟨⟨hactive, ?_⟩, hinto⟩
    intro howner
    simp only [MembershipRow.isActiveOwner, Bool.and_eq_true] at howner ⊢
    exact ⟨howner.1, by simp⟩
  | removing m row rest =>
    cases h
    rw [ownerView_goesTo { w.people with
      memberships := w.people.memberships.erase (m.fromUser, row.1) } (hof m rfl) hop rfl rfl
        (stage_nextMembership _)]
    exact .single (.removes call _ row rest (merges_of_call (hof m rfl) hop hcall) rfl)
  | tombstoning m =>
    cases h
    exact changes_of_tombstones (hof m rfl) hop hcall hmerges

end People

end OrgWorld

end UserProfile
end StudioWeb
