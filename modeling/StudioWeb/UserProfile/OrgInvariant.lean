import StudioWeb.UserProfile.OrgPeople

/-!
# What operations keep while none has failed
-/

namespace StudioWeb
namespace UserProfile

open Option Function
open Relation (ReflTransGen)

section Users

variable
  {failed : Nat → Prop}
  {pointed : MergePair → Prop}
  {v t : PeopleView}
  {user : Uuid}
  {row : UserRow}

/-- A person stays, and one that is merged away stays merged away. -/
def Kept (v t : PeopleView) : Prop :=
  ∀ user row, v.users user = some row → ∃ after, t.users user = some after ∧
      (row.mergedInto.isSome → after.mergedInto.isSome)

theorem Kept.of_users (h : t.users = v.users) : Kept v t := by
  intro user row hrow
  exact ⟨row, by rw [h, hrow], id⟩

theorem Kept.trans {u : PeopleView} (h : Kept v u) (h' : Kept u t) : Kept v t := by
  intro user row hrow
  obtain ⟨mid, hmid, hkept⟩ := h user row hrow
  obtain ⟨after, hafter, hkept'⟩ := h' user mid hmid
  exact ⟨after, hafter, fun hmerged => hkept' (hkept hmerged)⟩

theorem kept_of_change (h : ViewChange failed pointed v t) : Kept v t := by
  cases h with
  | creates user _ hnew =>
    intro other found hfound
    have hne : other ≠ user := by
      rintro rfl
      rw [hnew] at hfound
      cases hfound
    exact ⟨found, (update_of_ne hne _ _).trans hfound, id⟩
  | tombstones _ m row hrow =>
    intro other found hfound
    by_cases hother : other = m.fromUser
    · subst hother
      exact ⟨row, update_self .., fun _ => by rw [hrow]; rfl⟩
    · exact ⟨found, (update_of_ne hother _ _).trans hfound, id⟩
  | _ => exact Kept.of_users rfl

theorem kept_of_changes (h : ViewChanges failed pointed v t) : Kept v t := by
  rcases h with hone | ⟨mid, hfirst, hsecond⟩
  · exact kept_of_change hone
  · exact (kept_of_change hfirst).trans (kept_of_change hsecond)

theorem mergeInv_of_changes (hinv : MergeInv v) (h : ViewChanges failed pointed v t) :
    MergeInv t := by
  rcases h with hone | ⟨mid, hfirst, hsecond⟩
  · exact hinv.preserved hone
  · exact (hinv.preserved hfirst).preserved hsecond

end Users

namespace OrgWorld

section OrgInvariant

variable
  {v5 : String → Uuid}
  {parseUuid : String → Option Uuid}
  {trim : String → String}
  {firstLoginJoin : Option (Uuid × String)}
  {w t : OrgWorld}
  {p q : PeopleWorld}
  {a : OrgAction}
  {b : PeopleAction}
  {op call : Nat}
  {fromUser intoUser : String}
  {orgs : List Uuid}
  {next : Option OrgOp}

/-- A statement of an operation, beside what it writes of memberships and documents. -/
structure Goes (w t : OrgWorld) (op : Nat) (next : Option OrgOp) : Prop where
  ops : t.ops = Function.update w.ops op next
  people :
    t.people.calls = w.people.calls ∧ t.people.users = w.people.users ∧
      t.people.logins = w.people.logins ∧
      t.people.answers = w.people.answers ∧
      t.people.loginMoves = w.people.loginMoves

/-- An operation that is not awaiting a merge. -/
def NotMerging (o : Option OrgOp) : Prop :=
  ∀ fromUser intoUser orgs, o ≠ some (.mergesGrants fromUser intoUser (.merging orgs))

theorem pairs_iff {o : Option OrgOp} {c : Option PersonCall} (h : NotMerging o) :
    Pairs parseUuid o c ↔ ∀ fromUser intoUser pc, c ≠ some (.merge fromUser intoUser pc) := by
  unfold Pairs
  split
  · next fromUser intoUser orgs => exact absurd rfl (h fromUser intoUser orgs)
  · exact Iff.rfl

theorem Paired.of_goes (h : Paired parseUuid w) (hgoes : Goes w t op next)
    (hold : NotMerging (w.ops op)) (hnew : NotMerging next) : Paired parseUuid t := by
  intro n
  rw [hgoes.ops, hgoes.people.1]
  by_cases hn : n = op
  · subst hn
    rw [update_self]
    exact (pairs_iff hnew).mpr ((pairs_iff hold).mp (h n))
  · rw [update_of_ne hn]
    exact h n

theorem Tombstoned.of_goes (h : Tombstoned parseUuid w) (hgoes : Goes w t op next)
    (hnew : ∀ fromUser intoUser pc,
      next = some (.mergesGrants fromUser intoUser pc) →
      pc.rekeys = true →
      ∃ now, w.ops op = some (.mergesGrants fromUser intoUser now) ∧ now.rekeys = true) :
    Tombstoned parseUuid t := by
  intro n fromUser intoUser pc source into hop hrekeys hfrom hinto
  rw [hgoes.ops] at hop
  rw [hgoes.people.2.1]
  by_cases hn : n = op
  · subst hn
    rw [update_self] at hop
    obtain ⟨now, hnow, hbefore⟩ := hnew fromUser intoUser pc hop hrekeys
    exact h n fromUser intoUser now source into hnow hbefore hfrom hinto
  · rw [update_of_ne hn] at hop
    exact h n fromUser intoUser pc source into hop hrekeys hfrom hinto

theorem Goes.peopleView (h : Goes w t op next) : t.people.view v5 = w.people.view v5 := by
  obtain ⟨hcalls, husers, hlogins, hanswers, hmoves⟩ := h.people
  simp [PeopleWorld.view, hcalls, husers, hlogins, hanswers, hmoves]

theorem mergeInv_of_goes (h : Goes w t op next) (hinv : MergeInv (w.people.view v5)) :
    MergeInv (t.people.view v5) := by
  rw [h.peopleView]
  exact hinv

theorem goes_goto (o : OrgOp) : Goes w (w.goto op o) op (some o) := ⟨rfl, rfl, rfl, rfl, rfl, rfl⟩

theorem goes_finish : Goes w (w.finish op) op none := ⟨rfl, rfl, rfl, rfl, rfl, rfl⟩

theorem goes_errs : Goes w (w.errs op) op none := ⟨rfl, rfl, rfl, rfl, rfl, rfl⟩

theorem goes_of_runsChange {c : MembershipChange} {pc : ChangePc} :
    ∃ next, Goes w (w.runsChange parseUuid op c pc) op next ∧
      (next = none ∨ ∃ now, next = some (.changes c now)) := by
  cases pc with
  | checking =>
    simp only [runsChange, checks]
    split
    · exact ⟨_, goes_goto _, .inr ⟨_, rfl⟩⟩
    · exact ⟨_, goes_goto _, .inr ⟨_, rfl⟩⟩
    · exact ⟨_, goes_goto _, .inr ⟨_, rfl⟩⟩
    · exact ⟨_, goes_finish, .inl rfl⟩
  | personChecks =>
    simp only [runsChange, checksPerson]
    split
    · exact ⟨_, goes_errs, .inl rfl⟩
    · exact ⟨_, goes_goto _, .inr ⟨_, rfl⟩⟩
  | writing =>
    simp only [runsChange, writesMembership]
    split
    · exact ⟨_, goes_errs, .inl rfl⟩
    · split
      · exact ⟨_, ⟨rfl, rfl, rfl, rfl, rfl, rfl⟩, .inr ⟨_, rfl⟩⟩
      · exact ⟨_, ⟨rfl, rfl, rfl, rfl, rfl, rfl⟩, .inl rfl⟩
  | syncLogins =>
    simp only [runsChange, syncsLogins]
    split
    · exact ⟨_, goes_errs, .inl rfl⟩
    · exact ⟨_, goes_goto _, .inr ⟨_, rfl⟩⟩
  | syncReads => exact ⟨_, goes_goto _, .inr ⟨_, rfl⟩⟩
  | syncWrites =>
    exact ⟨_, ⟨rfl, rfl, rfl, rfl, rfl, rfl⟩, .inl rfl⟩

theorem goes_of_rekeysNext (orgs : List Uuid) :
    ∃ next, Goes w (w.rekeysNext op fromUser intoUser orgs) op next ∧ (next = none ∨
        ∃ now, next = some (.mergesGrants fromUser intoUser now) ∧ now.rekeys = true) := by
  cases orgs with
  | nil => exact ⟨_, goes_finish, .inl rfl⟩
  | cons => exact ⟨_, goes_goto _, .inr ⟨_, rfl, rfl⟩⟩

theorem goes_of_rekeys {pc : GrantsPc} (hrekeys : pc.rekeys = true)
    (h : w.runsGrants parseUuid op fromUser intoUser pc = some t) :
    ∃ next, Goes w t op next ∧ (next = none ∨
        ∃ now, next = some (.mergesGrants fromUser intoUser now) ∧ now.rekeys = true) := by
  cases pc with
  | listing => cases hrekeys
  | merging => cases hrekeys
  | rekeyReads _ rest =>
    simp only [runsGrants] at h
    split at h
    · cases h
      exact goes_of_rekeysNext rest
    · split at h
      · cases h
        exact goes_of_rekeysNext rest
      · cases h
        exact ⟨_, goes_goto _, .inr ⟨_, rfl, rfl⟩⟩
  | rekeyWrites _ _ rest =>
    cases h
    cases rest with
    | nil => exact ⟨none, ⟨rfl, rfl, rfl, rfl, rfl, rfl⟩, .inl rfl⟩
    | cons => exact ⟨_, ⟨rfl, rfl, rfl, rfl, rfl, rfl⟩, .inr ⟨_, rfl, rfl⟩⟩

theorem ops_of_ended (hop : w.ops b.call = some (.mergesGrants fromUser intoUser (.merging orgs)))
    (hcall : p.calls b.call = none) :
    ∃ next, (w.settles b p).ops = Function.update w.ops b.call next ∧ (next = none ∨
        w.endsMerge b = true ∧
          ∃ now, next = some (.mergesGrants fromUser intoUser now) ∧ now.rekeys = true) := by
  simp only [settles, hop, hcall]
  split
  · next hends =>
    cases orgs with
    | nil => exact ⟨none, rfl, .inl rfl⟩
    | cons => exact ⟨_, rfl, .inr ⟨hends, _, rfl, rfl⟩⟩
  · exact ⟨none, rfl, .inl rfl⟩

theorem ops_of_not_ended (h : ∀ fromUser intoUser orgs,
      w.ops b.call = some (.mergesGrants fromUser intoUser (.merging orgs)) →
      p.calls b.call ≠ none) :
    (w.settles b p).ops = w.ops := by
  unfold settles
  split
  · next _ _ _ hop hcall => exact absurd hcall (h _ _ _ hop)
  · split
    · rfl
    · rfl

theorem ops_of_settles (b : PeopleAction) (p : PeopleWorld) :
    (w.settles b p).ops = w.ops ∨ ∃ fromUser intoUser orgs next,
        w.ops b.call = some (.mergesGrants fromUser intoUser (.merging orgs)) ∧
        p.calls b.call = none ∧
        (w.settles b p).ops = Function.update w.ops b.call next ∧
        (next = none ∨ w.endsMerge b = true ∧
            ∃ now, next = some (.mergesGrants fromUser intoUser now) ∧ now.rekeys = true) := by
  by_cases hended : ∃ fromUser intoUser orgs,
      w.ops b.call = some (.mergesGrants fromUser intoUser (.merging orgs)) ∧ p.calls b.call = none
  · obtain ⟨fromUser, intoUser, orgs, hop, hcall⟩ := hended
    obtain ⟨next, hops, hnext⟩ := ops_of_ended hop hcall
    exact .inr ⟨fromUser, intoUser, orgs, next, hop, hcall, hops, hnext⟩
  · refine .inl (ops_of_not_ended ?_)
    intro fromUser intoUser orgs hop hcall
    exact hended ⟨fromUser, intoUser, orgs, hop, hcall⟩

theorem notMerging_of_next (h : next = none ∨ w.endsMerge b = true ∧
        ∃ now, next = some (.mergesGrants fromUser intoUser now) ∧ now.rekeys = true) :
    NotMerging next := by
  rintro source into orgs hnext
  rcases h with hnone | ⟨_, now, hsome, hrekeys⟩
  · cases hnone.symm.trans hnext
  · cases hsome.symm.trans hnext
    cases hrekeys

theorem Paired.of_settles (h : Paired parseUuid w)
    (hstep : w.people.step v5 parseUuid trim firstLoginJoin b = some p)
    (hb : ∀ call fromUser intoUser, b ≠ .starts call (.merge fromUser intoUser)) :
    Paired parseUuid (w.settles b p) := by
  obtain ⟨next, hcalls, hnext⟩ := h.calls_of_step hstep hb
  have hhere : p.calls b.call = next := by rw [hcalls, update_self]
  intro n
  rw [people_settles]
  rcases ops_of_settles b p (w := w) with hops | ⟨fromUser, intoUser, orgs, o, _, hended, hops, ho⟩
  · rw [hops]
    by_cases hn : n = b.call
    · subst hn
      rw [hhere]
      rcases hnext with rfl | hpairs
      · refine (pairs_iff ?_).mpr (by simp)
        intro fromUser intoUser orgs hop
        obtain ⟨o, hchanged, ho⟩ := ops_of_ended hop hhere
        have hsame := congrFun (hops.symm.trans hchanged) b.call
        rw [update_self, hop] at hsame
        exact notMerging_of_next ho _ _ _ hsame.symm
      · exact hpairs
    · rw [hcalls, update_of_ne hn]
      exact h n
  · rw [hops]
    by_cases hn : n = b.call
    · subst hn
      rw [update_self, hended]
      exact (pairs_iff (notMerging_of_next ho)).mpr (by simp)
    · rw [hcalls, update_of_ne hn, update_of_ne hn]
      exact h n

theorem Tombstoned.of_settles (h : Tombstoned parseUuid w) (hpaired : Paired parseUuid w)
    (hmerges : MergeInv (w.people.view v5)) (hkept : Kept (w.people.view v5) (p.view v5))
    (hstep : w.people.step v5 parseUuid trim firstLoginJoin b = some p) :
    Tombstoned parseUuid (w.settles b p) := by
  have hstays : ∀ user row, w.people.users user = some row → ∃ after, p.users user = some after ∧
        (row.mergedInto.isSome → after.mergedInto.isSome) := hkept
  have hbefore : ∀ n fromUser intoUser pc source into,
      w.ops n = some (.mergesGrants fromUser intoUser pc) → pc.rekeys = true →
      parseUuid fromUser = some source → parseUuid intoUser = some into →
      (∃ row, p.users source = some row ∧ row.mergedInto.isSome) ∧ (p.users into).isSome := by
    intro n fromUser intoUser pc source into hop hrekeys hfrom hinto
    obtain ⟨⟨row, hrow, hmerged⟩, hthere⟩ := h n _ _ _ source into hop hrekeys hfrom hinto
    obtain ⟨after, hafter, hstill⟩ := hstays source row hrow
    obtain ⟨target, htarget⟩ := isSome_iff_exists.mp hthere
    obtain ⟨later, hlater, _⟩ := hstays into target htarget
    exact ⟨⟨after, hafter, hstill hmerged⟩, by simp [hlater]⟩
  intro n fromUser intoUser pc source into hop hrekeys hfrom hinto
  rw [people_settles]
  rcases ops_of_settles b p (w := w) with hops | ⟨f, i, orgs, o, hnow, _, hops, ho⟩
  · rw [hops] at hop
    exact hbefore n _ _ pc source into hop hrekeys hfrom hinto
  · rw [hops] at hop
    by_cases hn : n = b.call
    · subst hn
      rw [update_self] at hop
      rcases ho with hnone | ⟨hends, now, hsome, _⟩
      · cases hnone.symm.trans hop
      · cases hsome.symm.trans hop
        cases b with
        | runs call =>
          simp only [endsMerge] at hends
          split at hends
          · next _ _ m hcall =>
            obtain ⟨⟨orgs', hop'⟩, hof⟩ := hpaired.op_of_merge hcall
            cases hnow.symm.trans hop'
            obtain ⟨hsource, htarget⟩ := hof m rfl
            cases hfrom.symm.trans hsource
            cases hinto.symm.trans htarget
            obtain ⟨_, _, hlives⟩ := hmerges.apart call m _ (PeopleWorld.view_standing hcall)
            obtain ⟨row, hrow, _⟩ := PeopleWorld.lives_iff.mp hlives
            simp only [PeopleWorld.step, PeopleWorld.runs, hcall, PeopleWorld.readsPeople,
              PeopleWorld.runsMerge, none_or, some.injEq] at hstep
            subst hstep
            obtain ⟨later, hlater, _⟩ := hstays m.intoUser row hrow
            refine ⟨⟨PeopleWorld.tombstone m, update_self .., rfl⟩, ?_⟩
            simp [hlater]
          · cases hends
        | _ => cases hends
    · rw [update_of_ne hn] at hop
      exact hbefore n _ _ pc source into hop hrekeys hfrom hinto

/-- What operations keep while none has failed. -/
structure OrgInv
    (v5 : String → Uuid) (parseUuid : String → Option Uuid) (w : OrgWorld) : Prop where
  paired : Paired parseUuid w
  merges : MergeInv (w.people.view v5)
  tombstoned : Tombstoned parseUuid w
  owners : OwnerInv (w.view parseUuid)

theorem failed_of_runsChange {c : MembershipChange} {pc : ChangePc} (hfailed : w.failed = true) :
    (w.runsChange parseUuid op c pc).failed = true := by
  cases pc with
  | checking =>
    simp only [runsChange, checks]
    split
    · exact hfailed
    · exact hfailed
    · exact hfailed
    · exact hfailed
  | personChecks =>
    simp only [runsChange, checksPerson]
    split
    · rfl
    · exact hfailed
  | writing =>
    simp only [runsChange, writesMembership]
    split
    · rfl
    · split
      · exact hfailed
      · exact hfailed
  | syncLogins =>
    simp only [runsChange, syncsLogins]
    split
    · rfl
    · exact hfailed
  | syncReads => exact hfailed
  | syncWrites => exact hfailed

theorem failed_rekeysNext (orgs : List Uuid) :
    (w.rekeysNext op fromUser intoUser orgs).failed = w.failed := by
  cases orgs with
  | nil => rfl
  | cons => rfl

theorem failed_of_runsGrants {pc : GrantsPc} (hfailed : w.failed = true)
    (h : w.runsGrants parseUuid op fromUser intoUser pc = some t) : t.failed = true := by
  cases pc with
  | listing =>
    simp only [runsGrants, lists] at h
    split at h
    · cases h
      rfl
    · split at h
      · cases h
        rfl
      · obtain ⟨p, _, rfl⟩ := map_eq_some_iff.mp h
        exact hfailed
  | merging => cases h
  | rekeyReads =>
    simp only [runsGrants] at h
    split at h
    · cases h
      rw [failed_rekeysNext, hfailed]
    · split at h
      · cases h
        rw [failed_rekeysNext, hfailed]
      · cases h
        exact hfailed
  | rekeyWrites =>
    cases h
    rw [failed_rekeysNext]
    exact hfailed

theorem failed_settles (hfailed : w.failed = true) : (w.settles b p).failed = true := by
  unfold settles
  split
  · split
    · rw [failed_rekeysNext]
      exact hfailed
    · rfl
  · split
    · simp [hfailed]
    · exact hfailed

theorem failed_of_step (hfailed : w.failed = true)
    (h : w.step v5 parseUuid trim firstLoginJoin a = some t) : t.failed = true := by
  cases a with
  | person =>
    simp only [step, person] at h
    split at h
    · cases h
    · obtain ⟨p, _, rfl⟩ := map_eq_some_iff.mp h
      exact failed_settles hfailed
  | starts =>
    simp only [step, starts] at h
    split at h
    · cases h
    · split at h
      · cases h
        exact hfailed
      · cases h
        exact hfailed
  | runs =>
    simp only [step, runs] at h
    split at h
    · cases h
      exact failed_of_runsChange hfailed
    · exact failed_of_runsGrants hfailed h
    · cases h
  | fails =>
    simp only [step, fails] at h
    split at h
    · cases h
    · cases h
      exact hfailed
    · cases h
      rfl
    · cases h

theorem changes_of_people (hinv : OrgInv v5 parseUuid w)
    (hfollow : GrantsFollow v5 parseUuid firstLoginJoin w (.person b))
    (hb : ∀ call fromUser intoUser, b ≠ .starts call (.merge fromUser intoUser))
    (h : w.people.step v5 parseUuid trim firstLoginJoin b = some p)
    (hgood : (w.settles b p).failed = false) :
    ReflTransGen StandingChange (w.view parseUuid) ((w.settles b p).view parseUuid) := by
  obtain ⟨next, hnext, -⟩ := hinv.paired.calls_of_step h hb
  have hcalls : ∀ n, n ≠ b.call → p.calls n = w.people.calls n := by
    intro n hn
    rw [hnext, update_of_ne hn]
  cases b with
  | starts call =>
    simp only [PeopleWorld.step, PeopleWorld.starts] at h
    split at h
    · cases h
    · next _ hcall =>
      cases h
      have hfree : ¬ w.Awaits call := hinv.paired.not_awaits (by simp [hcall])
      exact same_of_not_awaits hfree hcalls rfl rfl
    · next fromUser intoUser _ => exact absurd rfl (hb call fromUser intoUser)
  | creates =>
    exact changes_of_creates hinv.paired hinv.merges hinv.tombstoned hfollow hcalls h
  | links => exact changes_of_links hinv.paired hinv.tombstoned hfollow hcalls h
  | runs =>
    simp only [PeopleWorld.step, PeopleWorld.runs] at h
    split at h
    · next _ _ _ hcall =>
      exact changes_of_runsResolve hcall hinv.paired hfollow hcalls h
    · next _ _ _ hcall =>
      obtain ⟨⟨orgs, hop⟩, hof⟩ := hinv.paired.op_of_merge hcall
      rcases or_eq_some_iff.mp h with hreads | ⟨_, hruns⟩
      · exact changes_of_readsPeople hop hcall hreads hgood
      · exact changes_of_runsMerge hof hop hcall hinv.merges hfollow hruns hgood
    · cases h
  | fails call =>
    simp only [PeopleWorld.step, PeopleWorld.fails] at h
    split at h
    · next hcall =>
      cases h
      have hfree : ¬ w.Awaits call := hinv.paired.not_awaits (by simp [hcall])
      exact same_of_not_awaits hfree hcalls rfl rfl
    · next hcall =>
      cases h
      have hfree : ¬ w.Awaits call := hinv.paired.not_awaits (by simp [hcall])
      exact same_of_not_awaits hfree hcalls rfl rfl
    · next c _ _ hcall =>
      cases h
      cases c with
      | resolve =>
        have hfree : ¬ w.Awaits call := hinv.paired.not_awaits (by simp [hcall])
        exact same_of_not_awaits hfree hcalls rfl rfl
      | merge =>
        obtain ⟨⟨orgs, hop⟩, _⟩ := hinv.paired.op_of_merge hcall
        have hstopped : (w.people.finish call).calls call = none := update_self ..
        have hfailed := @failed_of_settles w (w.people.finish call) (.fails call) _ _ _
          hop hstopped rfl
        rw [hfailed] at hgood
        cases hgood
    · cases h

theorem requested_not_begun {request : OrgRequest} {o : OrgOp}
    (h : requested parseUuid request = some o) :
    o.pending parseUuid = none ∧ (∀ c, o.merge parseUuid c = none) ∧ NotMerging (some o) ∧
      ∀ fromUser intoUser pc, o = .mergesGrants fromUser intoUser pc → pc.rekeys = false := by
  cases request with
  | put =>
    simp only [requested] at h
    split at h
    · cases h
    · split at h
      · cases h
        exact ⟨rfl, fun _ => rfl, by simp [NotMerging], by simp⟩
      · cases h
  | accept =>
    simp only [requested] at h
    split at h
    · cases h
      exact ⟨rfl, fun _ => rfl, by simp [NotMerging], by simp⟩
    · cases h
  | merge =>
    cases h
    refine ⟨rfl, fun _ => merge_of_listing, by simp [NotMerging], ?_⟩
    rintro f i pc ⟨⟩
    rfl
  | _ =>
    cases h
    exact ⟨rfl, fun _ => rfl, by simp [NotMerging], by simp⟩

/-- **Every step changes the view of the operations as `StandingChange` allows.** -/
theorem ownerView_of_step (hinv : OrgInv v5 parseUuid w)
    (hfollow : GrantsFollow v5 parseUuid firstLoginJoin w a)
    (h : w.step v5 parseUuid trim firstLoginJoin a = some t) (hgood : t.failed = false) :
    ReflTransGen StandingChange (w.view parseUuid) (t.view parseUuid) := by
  cases a with
  | person =>
    simp only [step, person] at h
    split at h
    · cases h
    · next hb =>
      obtain ⟨p, hp, rfl⟩ := map_eq_some_iff.mp h
      exact changes_of_people hinv hfollow hb hp hgood
  | starts =>
    simp only [step, starts] at h
    split at h
    · cases h
    · next hop =>
      split at h
      · next _ ho =>
        cases h
        obtain ⟨hpending, hmerge, _⟩ := requested_not_begun ho
        rw [ownerView_goto, hpending, hmerge, setPending_self (by simp [view, hop]),
          setMerge_self (by simp [view, hop])]
      · cases h
        exact .refl
  | runs =>
    simp only [step, runs] at h
    split at h
    · next _ _ hop =>
      cases h
      exact changes_of_runsChange hop hfollow hgood
    · next _ _ _ hop =>
      exact changes_of_runsGrants hop hinv.owners hinv.tombstoned hfollow h hgood
    · cases h
  | fails =>
    simp only [step, fails] at h
    split at h
    · cases h
    · next _ _ hop =>
      cases h
      rw [ownerView_goto_change hop,
        setPending_self (by simp [view, hop, OrgOp.pending, ChangePc.written])]
    · cases h
      cases hgood
    · cases h

theorem ownerInv_of_changes {v v' : OwnerView} (hinv : OwnerInv v)
    (h : ReflTransGen StandingChange v v') : OwnerInv v' := by
  induction h with
  | refl => exact hinv
  | tail _ hchange ih => exact ih.preserved hchange

theorem ops_of_runs_listing (h : w.runsGrants parseUuid op fromUser intoUser .listing = some t)
    (hgood : t.failed = false) :
    ∃ orgs, t = ({ w with people := w.people.goto op (.merge fromUser intoUser .checkingTarget) } :
        OrgWorld).goto op (.mergesGrants fromUser intoUser (.merging orgs)) ∧
      w.people.starts op (.merge fromUser intoUser) =
        some (w.people.goto op (.merge fromUser intoUser .checkingTarget)) := by
  simp only [runsGrants, lists] at h
  split at h
  · cases h
    cases hgood
  · split at h
    · cases h
      cases hgood
    · next hne =>
      obtain ⟨p, hp, rfl⟩ := map_eq_some_iff.mp h
      have hstarted := goto_of_starts hne hp
      subst hstarted
      exact ⟨_, rfl, hp⟩

/-- **Step**: where statements do not get between a membership and its grant, and none has
failed, the grants go with the owners. -/
theorem OrgInv.preserved (hinv : OrgInv v5 parseUuid w)
    (hfollow : GrantsFollow v5 parseUuid firstLoginJoin w a)
    (h : w.step v5 parseUuid trim firstLoginJoin a = some t) (hgood : t.failed = false) :
    OrgInv v5 parseUuid t := by
  have howners := ownerInv_of_changes hinv.owners (ownerView_of_step hinv hfollow h hgood)
  cases a with
  | person b =>
    simp only [step, person] at h
    split at h
    · cases h
    · next hb =>
      obtain ⟨p, hp, rfl⟩ := map_eq_some_iff.mp h
      have hchanges := view_of_step hp (hfollow.apart b rfl)
      refine ⟨hinv.paired.of_settles hp hb, ?_, ?_, howners⟩
      · rw [people_settles]
        exact mergeInv_of_changes hinv.merges hchanges
      · exact hinv.tombstoned.of_settles hinv.paired hinv.merges (kept_of_changes hchanges) hp
  | starts =>
    simp only [step, starts] at h
    split at h
    · cases h
    · next hop =>
      split at h
      · next o ho =>
        cases h
        obtain ⟨_, _, hnew, hrekeys⟩ := requested_not_begun ho
        refine ⟨hinv.paired.of_goes (goes_goto o) (by simp [NotMerging, hop]) hnew,
          hinv.merges, hinv.tombstoned.of_goes (goes_goto o) ?_, howners⟩
        intro fromUser intoUser pc hsome hpc
        rw [hrekeys fromUser intoUser pc (some.inj hsome)] at hpc
        cases hpc
      · cases h
        exact hinv
  | runs op =>
    simp only [step, runs] at h
    split at h
    · next c pc hop =>
      cases h
      obtain ⟨next, hgoes, hnext⟩ := @goes_of_runsChange parseUuid w op c pc
      have hchange : ∀ fromUser intoUser pc,
          next ≠ some (.mergesGrants fromUser intoUser pc) := by
        rintro fromUser intoUser pc heq
        rcases hnext with rfl | ⟨now, rfl⟩
        · cases heq
        · cases heq
      refine ⟨hinv.paired.of_goes hgoes (by simp [NotMerging, hop])
        (fun _ _ _ => hchange _ _ _), mergeInv_of_goes hgoes hinv.merges,
        hinv.tombstoned.of_goes hgoes ?_, howners⟩
      intro fromUser intoUser pc hsome
      exact absurd hsome (hchange _ _ _)
    · next fromUser intoUser pc hop =>
      cases hrekeys : pc.rekeys with
      | true =>
        obtain ⟨next, hgoes, hnext⟩ := goes_of_rekeys hrekeys h
        refine ⟨hinv.paired.of_goes hgoes ?_ ?_, mergeInv_of_goes hgoes hinv.merges,
          hinv.tombstoned.of_goes hgoes ?_, howners⟩
        · rintro f i orgs heq
          cases hop.symm.trans heq
          cases hrekeys
        · rintro f i orgs heq
          rcases hnext with rfl | ⟨now, rfl, hnow⟩
          · cases heq
          · cases heq
            cases hnow
        · rintro f i now heq _
          rcases hnext with rfl | ⟨now, rfl, _⟩
          · cases heq
          · cases heq
            exact ⟨pc, hop, hrekeys⟩
      | false =>
        cases pc with
        | listing =>
          obtain ⟨orgs, rfl, hstarts⟩ := ops_of_runs_listing h hgood
          have hchanges : ViewChanges (fun other => PeopleAction.starts op
              (.merge fromUser intoUser) = .fails other) (fun _ => False) (w.people.view v5)
              ((w.people.goto op (.merge fromUser intoUser .checkingTarget)).view v5) :=
            .inl (view_of_starts hstarts)
          refine ⟨?_, mergeInv_of_changes hinv.merges hchanges, ?_, howners⟩
          · intro n
            by_cases hn : n = op
            · subst hn
              simp only [goto, PeopleWorld.goto, update_self]
              exact ⟨_, rfl, trivial⟩
            · simp only [goto, PeopleWorld.goto, update_of_ne hn]
              exact hinv.paired n
          · intro n f i now source into hnow hpc hfrom hinto
            by_cases hn : n = op
            · subst hn
              simp only [goto, update_self, some.injEq,
                OrgOp.mergesGrants.injEq] at hnow
              obtain ⟨_, _, rfl⟩ := hnow
              cases hpc
            · simp only [goto, update_of_ne hn] at hnow
              exact hinv.tombstoned n f i now source into hnow hpc hfrom hinto
        | merging => cases h
        | rekeyReads => cases hrekeys
        | rekeyWrites => cases hrekeys
    · cases h
  | fails op =>
    simp only [step, fails] at h
    split at h
    · cases h
    · next c legacyKeys hop =>
      cases h
      have hgoes := @goes_goto w op (.changes c (.syncWrites legacyKeys freshDocument))
      refine ⟨hinv.paired.of_goes hgoes (by simp [NotMerging, hop]) (by simp [NotMerging]),
        mergeInv_of_goes hgoes hinv.merges, hinv.tombstoned.of_goes hgoes ?_, howners⟩
      rintro fromUser intoUser pc ⟨⟩
    · cases h
      cases hgood
    · cases h

end OrgInvariant

end OrgWorld

end UserProfile
end StudioWeb
