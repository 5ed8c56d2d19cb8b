import StudioWeb.UserProfile.OrgCalls

/-!
# The membership that a statement writes
-/

namespace StudioWeb
namespace UserProfile

open List Option

/-- A membership as a statement leaves it. -/
structure MembershipWrite where
  user : Uuid
  org : Uuid
  after : Option Standing
deriving DecidableEq

def MembershipWrite.row (m : MembershipWrite) (source : String) : Option MembershipRow :=
  m.after.map fun s => ⟨s.role, s.status, source⟩

namespace OrgWorld

def personWrite (firstLoginJoin : Option (Uuid × String)) : PersonCall → Option MembershipWrite
  | .resolve _ _ (.joining userId) =>
    firstLoginJoin.map fun join => ⟨userId, join.1, some (.active join.2)⟩
  | .merge _ _ (.recording m row _) => some ⟨m.intoUser, row.1, some (.active row.2.role)⟩
  | .merge _ _ (.removing m row _) => some ⟨m.fromUser, row.1, none⟩
  | _ => none

def changeWrite (parseUuid : String → Option Uuid) : OrgOp → Option MembershipWrite
  | .changes c .writing => (parseUuid c.user).map fun user => ⟨user, c.org, c.after⟩
  | _ => none

def membershipWrite (parseUuid : String → Option Uuid) (firstLoginJoin : Option (Uuid × String))
    (w : OrgWorld) : OrgAction → Option MembershipWrite
  | .runs op => (w.ops op).bind (changeWrite parseUuid)
  | .person (.runs call) => (w.people.calls call).bind (personWrite firstLoginJoin)
  | _ => none

def HasOwner (w : OrgWorld) (org : Uuid) : Prop :=
  ∃ user row, w.people.memberships.get? (user, org) = some row ∧ row.isActiveOwner = true

def Writes (memberships : InsertionMap (Uuid × Uuid) MembershipRow) (m : MembershipWrite)
    (after : InsertionMap (Uuid × Uuid) MembershipRow) : Prop :=
  ∃ source, after =
    match m.row source with
    | some row => memberships.set (m.user, m.org) row
    | none => memberships.erase (m.user, m.org)

/-- At most what is given is written. -/
def WritesOnly (memberships : InsertionMap (Uuid × Uuid) MembershipRow) (m : Option MembershipWrite)
    (after : InsertionMap (Uuid × Uuid) MembershipRow) : Prop :=
  match m with
  | some m => Writes memberships m after
  | none => after = memberships

section RuledWrites

variable
  {v5 : String → Uuid}
  {parseUuid : String → Option Uuid}
  {trim : String → String}
  {firstLoginJoin : Option (Uuid × String)}
  {w t : OrgWorld}
  {p q : PeopleWorld}
  {a : OrgAction}
  {op call : Nat}
  {c : MembershipChange}
  {org : Uuid}

theorem memberships_of_runsResolve {s : Sighting} {begun : Nat} {pc : ResolvePc}
    (h : p.runsResolve v5 firstLoginJoin call s begun pc = some q) :
    WritesOnly p.memberships (personWrite firstLoginJoin (.resolve s begun pc))
      q.memberships := by
  cases pc with
  | finding =>
    simp only [PeopleWorld.runsResolve] at h
    split at h
    · cases h
      rfl
    · cases h
      rfl
  | joinChecks =>
    simp only [PeopleWorld.runsResolve] at h
    split at h
    · cases h
      rfl
    · cases h
      rfl
  | joining =>
    simp only [PeopleWorld.runsResolve] at h
    split at h
    · cases h
    · cases h
      exact ⟨SOURCE_FIRST_LOGIN, rfl⟩
  | creating => cases h
  | linking => cases h

variable {fromUser intoUser : String}

theorem memberships_of_readsPeople {pc : MergePc}
    (h : p.readsPeople parseUuid call fromUser intoUser pc = some q) :
    WritesOnly p.memberships (personWrite firstLoginJoin (.merge fromUser intoUser pc))
      q.memberships := by
  cases pc with
  | checkingTarget =>
    simp only [PeopleWorld.readsPeople] at h
    split at h
    · cases h
      rfl
    · split at h
      · cases h
        rfl
      · cases h
        rfl
  | checkingSource =>
    simp only [PeopleWorld.readsPeople] at h
    split at h
    · cases h
      rfl
    · split at h
      · cases h
        rfl
      · cases h
        rfl
  | _ => cases h

theorem memberships_of_runsMerge {pc : MergePc}
    (h : p.runsMerge call (.merge fromUser intoUser) pc = some q) :
    WritesOnly p.memberships (personWrite firstLoginJoin (.merge fromUser intoUser pc))
      q.memberships := by
  cases pc with
  | recording _ row =>
    cases h
    exact ⟨row.2.source, rfl⟩
  | removing =>
    cases h
    exact ⟨"", rfl⟩
  | recordChecks =>
    simp only [PeopleWorld.runsMerge] at h
    split at h
    · cases h
      rfl
    · cases h
      rfl
  | checkingTarget => cases h
  | checkingSource => cases h
  | _ =>
    cases h
    rfl

theorem memberships_of_fails (h : p.fails v5 call = some q) : q.memberships = p.memberships := by
  unfold PeopleWorld.fails at h
  split at h
  · cases h
    rfl
  · cases h
    rfl
  · cases h
    rfl
  · cases h

theorem memberships_of_starts {request : PersonRequest} (h : p.starts call request = some q) :
    q.memberships = p.memberships := by
  unfold PeopleWorld.starts at h
  split at h
  · cases h
  · cases h
    rfl
  · split at h
    · cases h
      rfl
    · cases h
      rfl

theorem memberships_of_people {b : PeopleAction}
    (h : p.step v5 parseUuid trim firstLoginJoin b = some q) (hp : w.people = p) :
    WritesOnly p.memberships (w.membershipWrite parseUuid firstLoginJoin (.person b))
      q.memberships := by
  subst hp
  cases b with
  | starts => exact memberships_of_starts h
  | creates =>
    simp only [PeopleWorld.step, PeopleWorld.creates] at h
    split at h
    · cases h
      rfl
    · cases h
  | links =>
    simp only [PeopleWorld.step, PeopleWorld.links] at h
    split at h
    · split at h
      · cases h
        rfl
      · cases h
        rfl
    · cases h
  | runs =>
    simp only [PeopleWorld.step, PeopleWorld.runs] at h
    split at h
    · next _ _ _ hcall =>
      simp only [membershipWrite, hcall, bind_some]
      exact memberships_of_runsResolve h
    · next _ _ _ hcall =>
      simp only [membershipWrite, hcall, bind_some]
      rcases or_eq_some_iff.mp h with hreads | ⟨_, hruns⟩
      · exact memberships_of_readsPeople hreads
      · exact memberships_of_runsMerge hruns
    · cases h
  | fails => exact memberships_of_fails h

theorem people_settles {b : PeopleAction} : (w.settles b p).people = p := by
  unfold settles
  split
  · next _ _ orgs _ _ =>
    split
    · cases orgs with
      | nil => rfl
      | cons => rfl
    · rfl
  · split
    · rfl
    · rfl

theorem memberships_of_runsChange {pc : ChangePc} :
    WritesOnly w.people.memberships (changeWrite parseUuid (.changes c pc))
      (w.runsChange parseUuid op c pc).people.memberships := by
  cases pc with
  | checking =>
    simp only [runsChange, checks]
    split
    · rfl
    · rfl
    · rfl
    · rfl
  | personChecks =>
    simp only [runsChange, checksPerson]
    split
    · rfl
    · rfl
  | writing =>
    simp only [runsChange, writesMembership, changeWrite]
    cases hparse : parseUuid c.user with
    | none => rfl
    | some =>
      simp only [map_some]
      split
      · exact ⟨c.source, rfl⟩
      · exact ⟨c.source, rfl⟩
  | syncLogins =>
    simp only [runsChange, syncsLogins]
    split
    · rfl
    · rfl
  | syncReads => rfl
  | syncWrites => rfl

theorem people_rekeysNext (orgs : List Uuid) :
    (w.rekeysNext op fromUser intoUser orgs).people = w.people := by
  cases orgs with
  | nil => rfl
  | cons => rfl

theorem memberships_of_runsGrants {pc : GrantsPc}
    (h : w.runsGrants parseUuid op fromUser intoUser pc = some t) :
    t.people.memberships = w.people.memberships := by
  cases pc with
  | listing =>
    simp only [runsGrants, lists] at h
    split at h
    · cases h
      rfl
    · split at h
      · cases h
        rfl
      · obtain ⟨p, hp, rfl⟩ := map_eq_some_iff.mp h
        exact memberships_of_starts hp
  | merging => cases h
  | rekeyReads =>
    simp only [runsGrants] at h
    split at h
    · cases h
      rw [people_rekeysNext]
    · split at h
      · cases h
        rw [people_rekeysNext]
      · cases h
        rfl
  | rekeyWrites =>
    cases h
    rw [people_rekeysNext]
    rfl

/-- A step writes at most the membership of its action. -/
theorem memberships_of_step (h : w.step v5 parseUuid trim firstLoginJoin a = some t) :
    WritesOnly w.people.memberships (w.membershipWrite parseUuid firstLoginJoin a)
      t.people.memberships := by
  cases a with
  | person =>
    simp only [step, person] at h
    split at h
    · cases h
    · obtain ⟨p, hp, rfl⟩ := map_eq_some_iff.mp h
      rw [people_settles]
      exact memberships_of_people hp rfl
  | starts =>
    simp only [step, starts] at h
    split at h
    · cases h
    · split at h
      · cases h
        rfl
      · cases h
        rfl
  | runs =>
    simp only [step, runs] at h
    split at h
    · next _ _ hop =>
      cases h
      simp only [membershipWrite, hop, bind_some]
      exact memberships_of_runsChange
    · next _ _ _ hop =>
      simp only [membershipWrite, hop, bind_some]
      exact memberships_of_runsGrants h
    · cases h
  | fails =>
    simp only [step, fails] at h
    split at h
    · cases h
    · cases h
      rfl
    · cases h
      rfl
    · cases h

theorem get?_of_writes {memberships after : InsertionMap (Uuid × Uuid) MembershipRow}
    {m : MembershipWrite} (h : Writes memberships m after) :
    ∃ source, ∀ key, after.get? key =
      if key = (m.user, m.org) then m.row source else memberships.get? key := by
  obtain ⟨source, rfl⟩ := h
  refine ⟨source, ?_⟩
  intro key
  cases hrow : m.row source with
  | some => exact InsertionMap.get?_set ..
  | none => exact InsertionMap.get?_erase ..

theorem mem_room {m : Member} :
    m ∈ w.room org ↔ ∃ user row, w.people.memberships.get? (user, org) = some row ∧
        m = ⟨user.text, row.role, row.status⟩ := by
  simp only [room, List.mem_map, mem_filter, decide_eq_true_eq]
  constructor
  · rintro ⟨⟨⟨user, place⟩, row⟩, ⟨hentry, rfl⟩, rfl⟩
    exact ⟨user, row, (InsertionMap.get?_eq_some_iff ..).mpr hentry, rfl⟩
  · rintro ⟨user, row, hrow, rfl⟩
    exact ⟨((user, org), row), ⟨(InsertionMap.get?_eq_some_iff ..).mp hrow, rfl⟩, rfl⟩

/-- The rule does not refuse what is written, where it is asked at the write about the
person as the store spells it. -/
def RulePasses (w : OrgWorld) (m : MembershipWrite) : Prop :=
  mayChange (w.room m.org) m.user.text m.after ≠ .error .lastOwner ∧
    mayChange (w.room m.org) m.user.text m.after ≠ .error .lastPerson

theorem hasOwner_of_writes {m : MembershipWrite}
    (hwrites : Writes w.people.memberships m t.people.memberships) (hrule : RulePasses w m)
    (howner : w.HasOwner m.org) : t.HasOwner m.org := by
  obtain ⟨source, hget⟩ := get?_of_writes hwrites
  have hkeeps : ∀ user row, w.people.memberships.get? (user, m.org) = some row → user ≠ m.user →
      row.isActiveOwner = true → t.HasOwner m.org := by
    intro user row hrow hne hactive
    refine ⟨user, row, ?_, hactive⟩
    rw [hget, if_neg, hrow]
    intro heq
    exact hne (Prod.mk.inj heq).1
  cases hasked : mayChange (w.room m.org) m.user.text m.after with
  | ok =>
    obtain ⟨member, hmember, hactive⟩ := owner_of_mayChange hasked
    rcases mem_append.mp hmember with hstays | hcomes
    · obtain ⟨hroom, hother⟩ := mem_filter.mp hstays
      obtain ⟨user, row, hrow, rfl⟩ := mem_room.mp hroom
      refine hkeeps user row hrow ?_ hactive
      rintro rfl
      simp at hother
    · cases hafter : m.after with
      | none =>
        rw [hafter] at hcomes
        cases hcomes
      | some s =>
        simp only [hafter, map_some, toList_some, mem_singleton] at hcomes
        subst hcomes
        refine ⟨m.user, ⟨s.role, s.status, source⟩, ?_, hactive⟩
        simp [hget, MembershipWrite.row, hafter]
  | error refusal =>
    cases refusal with
    | notAMember =>
      obtain ⟨user, row, hrow, hactive⟩ := howner
      refine hkeeps user row hrow ?_ hactive
      rintro rfl
      exact notAMember_of_mayChange hasked _ (mem_room.mpr ⟨_, row, hrow, rfl⟩) rfl
    | lastOwner => exact absurd hasked hrule.1
    | lastPerson => exact absurd hasked hrule.2

/-- **Step**: where the rule lets pass what is written, every organization keeps an active
owner. -/
theorem hasOwner_of_step (h : w.step v5 parseUuid trim firstLoginJoin a = some t) (hrule :
      ∀ m, w.membershipWrite parseUuid firstLoginJoin a = some m → m.org = org → w.HasOwner org →
        RulePasses w m)
    (howner : w.HasOwner org) : t.HasOwner org := by
  have hwrites := memberships_of_step h
  cases hwrite : w.membershipWrite parseUuid firstLoginJoin a with
  | none =>
    rw [hwrite] at hwrites
    obtain ⟨user, row, hrow, hactive⟩ := howner
    exact ⟨user, row, (congrArg (fun m => m.get? (user, org)) hwrites).trans hrow, hactive⟩
  | some m =>
    rw [hwrite] at hwrites
    by_cases horg : m.org = org
    · subst horg
      exact hasOwner_of_writes hwrites (hrule m hwrite rfl howner) howner
    · obtain ⟨source, hget⟩ := get?_of_writes hwrites
      obtain ⟨user, row, hrow, hactive⟩ := howner
      refine ⟨user, row, ?_, hactive⟩
      rw [hget, if_neg, hrow]
      intro heq
      exact horg (Prod.mk.inj heq).2.symm

end RuledWrites

end OrgWorld

end UserProfile
end StudioWeb
