import StudioWeb.UserProfile.NamedPeople

/-!
# What a statement of a sign-in or a merge changes
-/

namespace StudioWeb
namespace UserProfile

open LabelledRuns PointerChains PeopleWorld Option Function PeopleWorld

/-- The person that a call has linked and not answered yet. -/
def ResolvePc.linked : ResolvePc → Option Uuid
  | .joinChecks userId => some userId
  | .joining userId => some userId
  | _ => none

/-- The people that a merge has read. -/
def MergePc.pair : MergePc → Option MergePair
  | .checkingTarget => none
  | .checkingSource _ => none
  | .listingLogins m => some m
  | .movingLogins m _ _ => some m
  | .listingAliases m => some m
  | .movingAliases m _ _ => some m
  | .listingMemberships m => some m
  | .recordChecks m _ _ => some m
  | .recording m _ _ => some m
  | .removing m _ _ => some m
  | .tombstoning m => some m

def MergePc.unmoved : MergePc → Option (List (Uuid × LoginRow))
  | .listingLogins _ => none
  | .movingLogins _ login rest => some (login :: rest)
  | _ => some []

section PeopleSteps

variable
  {v5 : String → Uuid}
  {parseUuid : String → Option Uuid}
  {trim : String → String}
  {firstLoginJoin : Option (Uuid × String)}
  {pointed : MergePair → Prop}
  {w t : PeopleWorld}
  {a : PeopleAction}
  {call : Nat}
  {c : PersonCall}

def PersonCall.standing (v5 : String → Uuid) : PersonCall → CallStanding
  | .resolve s begun pc =>
    match pc.linked with
    | none => .reading begun
    | some userId => .linked (loginId v5 s) userId begun
  | .merge _ _ pc =>
    match pc.pair with
    | none => .reading 0
    | some m => .merging m pc.unmoved

namespace PeopleWorld

def view (v5 : String → Uuid) (w : PeopleWorld) : PeopleView where
  users := w.users
  logins := w.logins
  standings := fun call => (w.calls call).map (PersonCall.standing v5)
  answers := w.answers
  loginMoves := w.loginMoves

def Merging (w : PeopleWorld) (call : Nat) (m : MergePair) : Prop :=
  ∃ fromUser intoUser pc, w.calls call = some (.merge fromUser intoUser pc) ∧ pc.pair = some m

def Living (w : PeopleWorld) (user : Uuid) : Prop :=
  ∃ row, w.users user = some row ∧ row.mergedInto = none

theorem view_goto :
    (w.goto call c).view v5 =
      (w.view v5).setStanding call (some (c.standing v5)) := by
  simp only [view, goto, PeopleView.setStanding, PeopleView.mk.injEq, true_and, and_true]
  funext other
  by_cases hother : other = call
  · subst hother
    simp
  · simp [update_of_ne hother]

theorem view_finish : (w.finish call).view v5 = (w.view v5).setStanding call none := by
  simp only [view, finish, PeopleView.setStanding, PeopleView.mk.injEq, true_and, and_true]
  funext other
  by_cases hother : other = call
  · subst hother
    simp
  · simp [update_of_ne hother]

theorem view_answer {login userId : Uuid} {begun : Nat} :
    (w.answer call login userId begun).view v5 =
      ((w.view v5).setStanding call none).addAnswer login userId begun := by
  rw [← view_finish]
  rfl

theorem view_standing (hcall : w.calls call = some c) :
    (w.view v5).standings call = some (c.standing v5) := by
  simp [view, hcall]

theorem view_goto_same {d : PersonCall} (hcall : w.calls call = some c)
    (hsame : d.standing v5 = c.standing v5) : (w.goto call d).view v5 = w.view v5 := by
  rw [view_goto, hsame, PeopleView.setStanding, ← view_standing hcall, update_eq_self]

theorem merging_of_merges {m : MergePair} {unmoved : Option (List (Uuid × LoginRow))}
    (h : (w.view v5).Merges call m unmoved) : w.Merging call m := by
  obtain ⟨c, hcall, hstanding⟩ := map_eq_some_iff.mp h
  cases c with
  | resolve =>
    simp only [PersonCall.standing] at hstanding
    split at hstanding
    · cases hstanding
    · cases hstanding
  | merge fromUser intoUser pc =>
    simp only [PersonCall.standing] at hstanding
    split at hstanding
    · cases hstanding
    · next _ hpair =>
      cases hstanding
      exact ⟨fromUser, intoUser, pc, hcall, hpair⟩

theorem lives_iff {user : Uuid} : (w.view v5).Lives user ↔ w.Living user := by
  simp [PeopleView.Lives, PeopleView.pointer, view, Living]

end PeopleWorld

theorem same_of_goto {failed : Nat → Prop} {w' : PeopleWorld} {d : PersonCall}
    (hview : w'.view v5 = w.view v5) (hcall : w'.calls call = some c)
    (hsame : d.standing v5 = c.standing v5) :
    ViewChange failed pointed (w.view v5) ((w'.goto call d).view v5) := by
  rw [view_goto_same hcall hsame, hview]
  exact .same

/-- First sights and merges keep apart: a login is linked where nobody linked it since, to
a person that no merge took; and merges do not overlap, and are of two people that are not
merged away. -/
structure Apart
    (v5 : String → Uuid) (parseUuid : String → Option Uuid) (w : PeopleWorld)
    (a : PeopleAction) : Prop where
  links :
    ∀ call now s begun userId, a = .links call now →
      w.calls call = some (.resolve s begun (.linking userId)) →
      w.logins.get? (loginId v5 s) = none ∧ w.Living userId ∧
        ∀ other m, w.Merging other m → m.fromUser ≠ userId
  merges :
    ∀ call fromUser intoUser source into, a = .runs call →
      w.calls call = some (.merge fromUser intoUser (.checkingSource into)) →
      parseUuid fromUser = some source →
      source ≠ into ∧ w.Living source ∧ w.Living into ∧ ∀ other m, ¬ w.Merging other m

def Points (w : PeopleWorld) (a : PeopleAction) (m : MergePair) : Prop :=
  ∃ call fromUser intoUser,
    a = .runs call ∧ w.calls call = some (.merge fromUser intoUser (.tombstoning m))

/-- One or two changes of the view, the second of a call that answers at once. -/
def ViewChanges (failed : Nat → Prop) (pointed : MergePair → Prop) (v v' : PeopleView) : Prop :=
  ViewChange failed pointed v v' ∨ ∃ mid, ViewChange (fun _ => False) (fun _ => False) v mid ∧
        ViewChange (fun _ => False) (fun _ => False) mid v'

theorem view_of_starts {request : PersonRequest} (h : w.starts call request = some t) :
    ViewChange (fun other => a = .fails other) pointed (w.view v5) (t.view v5) := by
  unfold PeopleWorld.starts at h
  split at h
  · cases h
  · next _ hcall =>
    cases h
    rw [view_goto]
    refine .reads call w.loginMoves ?_ (Nat.le_refl _)
    simp [PeopleView.Merges, PeopleWorld.view, hcall]
  · next _ _ hcall =>
    split at h
    · cases h
      exact .same
    · cases h
      rw [view_goto]
      refine .reads call 0 ?_ (Nat.zero_le _)
      simp [PeopleView.Merges, PeopleWorld.view, hcall]

theorem view_of_creates {userId : Uuid} (h : w.creates trim call userId = some t) :
    ViewChange (fun other => a = .fails other) pointed (w.view v5) (t.view v5) := by
  unfold PeopleWorld.creates at h
  split at h
  · next s begun hcall hnew =>
    cases h
    have hsame : ((w.setUser userId (newUser trim s)).goto call
        (.resolve s begun (.linking userId))).view v5 =
          (w.setUser userId (newUser trim s)).view v5 :=
      view_goto_same (c := .resolve s begun .creating) hcall rfl
    rw [hsame]
    exact .creates userId (newUser trim s) hnew
  · cases h

theorem view_of_links {now : Int} (h : w.links v5 firstLoginJoin call now = some t)
    (hapart : Apart v5 parseUuid w (.links call now)) :
    ViewChanges (fun other => a = .fails other) pointed (w.view v5) (t.view v5) := by
  unfold PeopleWorld.links at h
  split at h
  · next s begun userId hcall =>
    obtain ⟨hlogin, hlives, hmerged⟩ := hapart.links call now s begun userId rfl hcall
    have hlinks : ∀ failed pointed, ViewChange failed pointed (w.view v5)
        (((w.setLogin (loginId v5 s) (newLogin s userId now)).view v5).setStanding call
          (some (.linked (loginId v5 s) userId begun))) := by
      intro failed pointed
      have hrow : upsertedLogin (w.logins.get? (loginId v5 s)) (newLogin s userId now) =
          newLogin s userId now := by
        rw [hlogin]
        rfl
      simp only [PeopleWorld.view, setLogin, hrow]
      refine .links call begun (loginId v5 s) (newLogin s userId now)
        (view_standing hcall) hlogin (lives_iff.mpr hlives) ?_
      intro other m unmoved hother
      exact hmerged other m (merging_of_merges hother)
    cases firstLoginJoin with
    | none =>
      cases h
      refine .inr ⟨_, hlinks _ _, ?_⟩
      rw [view_answer]
      let linked := ((w.setLogin (loginId v5 s) (newLogin s userId now)).view
        v5).setStanding call (some (.linked (loginId v5 s) userId begun))
      have hagain : ViewChange (fun _ => False) (fun _ => False) linked
          ((linked.setStanding call none).addAnswer (loginId v5 s) userId begun) :=
        .answersLinked call begun (loginId v5 s) userId (by simp [linked, PeopleView.setStanding])
      simpa [linked, PeopleView.setStanding] using hagain
    | some =>
      cases h
      rw [view_goto]
      exact .inl (hlinks _ _)
  · cases h

theorem view_of_stops (hcall : w.calls call = some c)
    (hquiet : ∀ m unmoved, c.standing v5 ≠ .merging m unmoved) :
    ViewChange (fun other => a = .fails other) pointed (w.view v5) ((w.finish call).view v5) := by
  rw [view_finish]
  refine .stops call ?_
  intro m unmoved hmerges
  have hstanding := some.inj ((view_standing hcall).symm.trans hmerges)
  exact absurd hstanding (hquiet m unmoved)

theorem view_of_runsResolve {s : Sighting} {begun : Nat} {pc : ResolvePc}
    (hcall : w.calls call = some (.resolve s begun pc))
    (h : w.runsResolve v5 firstLoginJoin call s begun pc = some t) :
    ViewChange (fun other => a = .fails other) pointed (w.view v5) (t.view v5) := by
  cases pc with
  | finding =>
    simp only [runsResolve] at h
    split at h
    · next login hlogin =>
      cases h
      rw [view_answer]
      exact .answersFound call begun _ login (view_standing hcall) hlogin
    · cases h
      exact same_of_goto rfl hcall rfl
  | joinChecks userId =>
    simp only [runsResolve] at h
    split at h
    · cases h
      exact same_of_goto rfl hcall rfl
    · cases h
      rw [view_answer]
      exact .answersLinked call begun _ userId (view_standing hcall)
  | joining userId =>
    simp only [runsResolve] at h
    split at h
    · cases h
    · cases h
      rw [view_answer]
      exact .answersLinked call begun _ userId (view_standing hcall)
  | creating => cases h
  | linking => cases h

variable {fromUser intoUser : String} {m : MergePair}

theorem view_of_readsPeople {pc : MergePc}
    (hcall : w.calls call = some (.merge fromUser intoUser pc))
    (h : w.readsPeople parseUuid call fromUser intoUser pc = some t)
    (hapart : Apart v5 parseUuid w (.runs call)) :
    ViewChange (fun other => a = .fails other) pointed (w.view v5) (t.view v5) := by
  cases pc with
  | checkingTarget =>
    have hquiet : ∀ m unmoved, (PersonCall.merge fromUser intoUser .checkingTarget).standing v5 ≠
          .merging m unmoved := by
      intro m unmoved hmerging
      cases hmerging
    simp only [readsPeople] at h
    split at h
    · cases h
      exact view_of_stops hcall hquiet
    · split at h
      · cases h
        exact same_of_goto rfl hcall rfl
      · cases h
        exact view_of_stops hcall hquiet
  | checkingSource into =>
    have hquiet : ∀ m unmoved,
        (PersonCall.merge fromUser intoUser (.checkingSource into)).standing v5 ≠
          .merging m unmoved := by
      intro m unmoved hmerging
      cases hmerging
    simp only [readsPeople] at h
    split at h
    · cases h
      exact view_of_stops hcall hquiet
    · next source hsource =>
      obtain ⟨hne, hfrom, hinto, hnone⟩ :=
        hapart.merges call fromUser intoUser source into rfl hcall hsource
      split at h
      · cases h
        exact view_of_stops hcall hquiet
      · next row _ =>
        cases h
        rw [view_goto]
        refine .picks call ⟨source, into, row, 0⟩ rfl hne (lives_iff.mpr hfrom)
          (lives_iff.mpr hinto) ?_
        intro other n unmoved hother
        exact hnone other n (merging_of_merges hother)
  | listingLogins => cases h
  | movingLogins => cases h
  | listingAliases => cases h
  | movingAliases => cases h
  | listingMemberships => cases h
  | recordChecks => cases h
  | recording => cases h
  | removing => cases h
  | tombstoning => cases h

theorem standing_nextLogin (rest : List (Uuid × LoginRow)) :
    (PersonCall.merge fromUser intoUser (.nextLogin m rest)).standing v5 =
      .merging m (some rest) := by
  cases rest with
  | nil => rfl
  | cons => rfl

theorem standing_nextAlias (rest : List (Uuid × AliasRow)) :
    (PersonCall.merge fromUser intoUser (.nextAlias m rest)).standing v5 =
      .merging m (some []) := by
  cases rest with
  | nil => rfl
  | cons => rfl

theorem standing_nextMembership (rest : List (Uuid × MembershipRow)) :
    (PersonCall.merge fromUser intoUser (.nextMembership m rest)).standing v5 =
      .merging m (some []) := by
  cases rest with
  | nil => rfl
  | cons => rfl

theorem view_of_runsMerge {pc : MergePc} (hcall : w.calls call = some (.merge fromUser intoUser pc))
    (h : w.runsMerge call (.merge fromUser intoUser) pc = some t) :
    ViewChange (fun other => a = .fails other) (Points w (.runs call)) (w.view v5)
      (t.view v5) := by
  have hview := @view_standing v5 w call _ hcall
  cases pc with
  | listingLogins m =>
    cases h
    rw [view_goto, standing_nextLogin]
    exact .lists call m hview
  | movingLogins m login rest =>
    cases h
    rw [view_goto, standing_nextLogin]
    exact .moves call m login rest _ hview (upsertedLogin_userId _ _)
  | listingAliases =>
    cases h
    exact same_of_goto rfl hcall (standing_nextAlias _)
  | movingAliases =>
    cases h
    exact same_of_goto rfl hcall (standing_nextAlias _)
  | listingMemberships =>
    cases h
    exact same_of_goto rfl hcall (standing_nextMembership _)
  | recordChecks =>
    simp only [runsMerge] at h
    split at h
    · cases h
      exact same_of_goto rfl hcall rfl
    · next hgone =>
      cases h
      rw [view_finish]
      refine .stops call ?_
      intro n unmoved hmerges
      have hsame := some.inj (hview.symm.trans hmerges)
      cases hsame
      exact .inr (not_isSome_iff_eq_none.mp hgone)
  | recording =>
    cases h
    exact same_of_goto rfl hcall rfl
  | removing =>
    cases h
    exact same_of_goto rfl hcall (standing_nextMembership _)
  | tombstoning m =>
    cases h
    rw [view_finish]
    exact .tombstones call m (tombstone m) rfl hview ⟨call, fromUser, intoUser, rfl, hcall⟩
  | checkingTarget => cases h
  | checkingSource => cases h

theorem view_of_fails (h : w.fails v5 call = some t) :
    ViewChange (fun other => PeopleAction.fails call = .fails other) pointed (w.view v5)
      (t.view v5) := by
  unfold PeopleWorld.fails at h
  split at h
  · next _ begun userId hcall =>
    cases h
    rw [view_answer]
    exact .answersLinked call begun _ userId (view_standing hcall)
  · next _ begun userId hcall =>
    cases h
    rw [view_answer]
    exact .answersLinked call begun _ userId (view_standing hcall)
  · cases h
    rw [view_finish]
    exact .stops call fun _ _ _ => .inl rfl
  · cases h

/-- **Every step changes the view of the calls as `ViewChange` allows.** -/
theorem view_of_step (h : w.step v5 parseUuid trim firstLoginJoin a = some t)
    (hapart : Apart v5 parseUuid w a) :
    ViewChanges (fun call => a = .fails call) (Points w a) (w.view v5) (t.view v5) := by
  cases a with
  | starts => exact .inl (view_of_starts h)
  | creates => exact .inl (view_of_creates h)
  | links => exact view_of_links h hapart
  | runs =>
    simp only [step, PeopleWorld.runs] at h
    split at h
    · next _ _ _ hcall => exact .inl (view_of_runsResolve hcall h)
    · next _ _ _ hcall =>
      rcases or_eq_some_iff.mp h with hreads | ⟨_, hruns⟩
      · exact .inl (view_of_readsPeople hcall hreads hapart)
      · exact .inl (view_of_runsMerge hcall hruns)
    · cases h
  | fails => exact .inl (view_of_fails h)

end PeopleSteps

end UserProfile
end StudioWeb
