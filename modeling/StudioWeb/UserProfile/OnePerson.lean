import StudioWeb.UserProfile.PeopleSteps

/-!
# A sign-in names one living person
-/

namespace StudioWeb
namespace UserProfile

open LabelledRuns PointerChains PeopleWorld Option PeopleWorld

section OnePerson

variable
  {v5 : String → Uuid}
  {parseUuid : String → Option Uuid}
  {trim : String → String}
  {firstLoginJoin : Option (Uuid × String)}
  {lesser : String → String → Prop}
  {w t : PeopleWorld}
  {a : PeopleAction}
  {call : Nat}
  {c : PersonCall}

/-- First sights and merges do not disturb each other: they keep apart; no chain of
pointers gets too long; the memberships that are moved are active and of no lesser role;
and no merge fails that has moved a login. -/
structure Undisturbed
    (v5 : String → Uuid) (parseUuid : String → Option Uuid) (lesser : String → String → Prop)
    (w : PeopleWorld) (a : PeopleAction) : Prop where
  apart : Apart v5 parseUuid w a
  depth :
    ∀ m, Points w a m → ∀ login userId begun, (w.view v5).Named login userId begun →
        LeadsTo (w.view v5).pointer 8 userId m.fromUser →
        LeadsTo (w.view v5).pointer 7 userId m.fromUser
  standing :
    ∀ call fromUser intoUser m row rest, a = .runs call →
      w.calls call = some (.merge fromUser intoUser (.recording m row rest)) →
      row.2.status = STATUS_ACTIVE ∧ ∀ old, w.memberships.get? (m.intoUser, row.1) = some old →
          ¬ lesser row.2.role old.role
  fails :
    ∀ call m, a = .fails call → w.Merging call m → m.loginsMoved = 0

/-- A membership that a merge moves keeps its status, and the role that the survivor had
there is not replaced by a lesser one. -/
structure KeepsStanding
    (lesser : String → String → Prop) (w : PeopleWorld) (a : PeopleAction)
    (t : PeopleWorld) : Prop where
  records :
    ∀ call fromUser intoUser m row rest, a = .runs call →
      w.calls call = some (.merge fromUser intoUser (.recording m row rest)) →
      ∃ kept, t.memberships.get? (m.intoUser, row.1) = some kept ∧ kept.status = row.2.status ∧
        ∀ old, w.memberships.get? (m.intoUser, row.1) = some old → ¬ lesser kept.role old.role
  removes :
    ∀ call fromUser intoUser m row rest, a = .runs call →
      w.calls call = some (.merge fromUser intoUser (.removing m row rest)) →
      t.memberships.get? (m.intoUser, row.1) = w.memberships.get? (m.intoUser, row.1)

/-- Two calls for one sign-in answer the same person, unless a merge moved a login from
when the first of them began to when the last of them ended. -/
def OneAnswer (w : PeopleWorld) : Prop :=
  ∀ e ∈ w.answers, ∀ f ∈ w.answers, e.login = f.login → e.begun = f.ended → f.begun = e.ended →
    e.userId = f.userId

/-- No call is in progress. -/
def PeopleWorld.Quiet (w : PeopleWorld) : Prop := ∀ call, w.calls call = none

/-- Every login names a person that is not merged away, and the profile of everybody that
was answered for it is that person's. -/
structure Resolves (parseUuid : String → Option Uuid) (w : PeopleWorld) : Prop where
  living : ∀ login row, w.logins.get? login = some row → w.Living row.userId
  answered :
    ∀ e ∈ w.answers, ∃ login row, w.logins.get? e.login = some login ∧
        w.users login.userId = some row ∧
        getProfile parseUuid w.users e.userId.text = .ok (some (login.userId, row))

/-- No call has begun, and every login names a person that is not merged away. -/
structure NoSignIns (w : PeopleWorld) : Prop where
  calls : ∀ call, w.calls call = none
  answers : w.answers = []
  living : ∀ login row, w.logins.get? login = some row → w.Living row.userId

/-- What holds in every state of such a run. -/
structure SignInInv (v5 : String → Uuid) (w : PeopleWorld) : Prop where
  merges : MergeInv (w.view v5)
  named : NamedInv (w.view v5)
  counts : CountInv (w.view v5)

theorem NoSignIns.inv (h : NoSignIns w) : SignInInv v5 w := by
  have hstandings : ∀ call, (w.view v5).standings call = none := by
    intro call
    simp [view, h.calls call]
  have hmerges : ∀ call m unmoved, ¬ (w.view v5).Merges call m unmoved := by
    intro call m unmoved hmerges
    rw [PeopleView.Merges, hstandings call] at hmerges
    cases hmerges
  have hnamed : ∀ login userId begun, ¬ (w.view v5).Named login userId begun := by
    intro login userId begun hnamed
    rcases hnamed with ⟨e, he, _⟩ | ⟨call, hcall⟩
    · rw [view, h.answers] at he
      cases he
    · rw [hstandings call] at hcall
      cases hcall
  have hanswers : ∀ e, e ∉ (w.view v5).answers := by
    intro e he
    rw [view, h.answers] at he
    cases he
  refine ⟨⟨?_, ?_, ?_, ?_, ?_⟩, ?_, ⟨?_, ?_, ?_, ?_, ?_⟩⟩
  · intro key row hrow
    exact lives_iff.mpr (h.living key row hrow)
  · intro call other m n p q hcall
    exact absurd hcall (hmerges call m p)
  · intro call m unmoved hcall
    exact absurd hcall (hmerges call m unmoved)
  · intro call m hcall
    exact absurd hcall (hmerges call m none)
  · intro call m rest hcall
    exact absurd hcall (hmerges call m (some rest))
  · intro login userId begun h'
    exact absurd h' (hnamed login userId begun)
  · intro login userId begun h'
    exact absurd h' (hnamed login userId begun)
  · intro call begun hcall
    rw [hstandings call] at hcall
    cases hcall
  · intro e he
    exact absurd he (hanswers e)
  · intro login userId h'
    exact absurd h' (hnamed login userId _)
  · intro e he
    exact absurd he (hanswers e)

section

variable
  (h : SignInInv v5 w) (hstep : w.step v5 parseUuid trim firstLoginJoin a = some t)
  (hundisturbed : Undisturbed v5 parseUuid lesser w a)
include h hstep hundisturbed

/-- **Step**: what does not disturb keeps the invariant. -/
theorem SignInInv.preserved : SignInInv v5 t := by
  rcases view_of_step hstep hundisturbed.apart with hchange | ⟨mid, hfirst, hsecond⟩
  · refine ⟨h.merges.preserved hchange,
      h.named.preserved h.merges ?_ hundisturbed.depth hchange, h.counts.preserved hchange⟩
    intro call m unmoved hfails hcall
    exact hundisturbed.fails call m hfails (merging_of_merges hcall)
  · have hmerges := h.merges.preserved hfirst
    have hnamed := h.named.preserved h.merges (fun _ _ _ hfails => hfails.elim)
      (fun _ hpoints => hpoints.elim) hfirst
    exact ⟨hmerges.preserved hsecond, hnamed.preserved hmerges (fun _ _ _ hfails => hfails.elim)
        (fun _ hpoints => hpoints.elim) hsecond,
      (h.counts.preserved hfirst).preserved hsecond⟩

theorem SignInInv.keepsStanding : KeepsStanding lesser w a t := by
  constructor
  · intro call fromUser intoUser m row rest haction hcall
    subst haction
    obtain ⟨hactive, hrole⟩ := hundisturbed.standing call fromUser intoUser m row rest rfl hcall
    simp only [PeopleWorld.step, PeopleWorld.runs, hcall, readsPeople,
      runsMerge, none_or, some.injEq] at hstep
    subst hstep
    exact ⟨_, InsertionMap.get?_set_self .., hactive.symm, hrole⟩
  · intro call fromUser intoUser m row rest haction hcall
    subst haction
    have hview := @view_standing v5 w call _ hcall
    have hne := (h.merges.apart call m (some []) hview).1
    simp only [PeopleWorld.step, PeopleWorld.runs, hcall, readsPeople,
      runsMerge, none_or, some.injEq] at hstep
    subst hstep
    have hkey : (m.intoUser, row.1) ≠ (m.fromUser, row.1) := by
      intro heq
      exact hne (Prod.mk.inj heq).1.symm
    simp only [goto, InsertionMap.get?_erase, if_neg hkey]

end

theorem getProfileWith_of_leadsTo {users : Uuid → Option UserRow} {userId : String} {n : Nat}
    {user other : Uuid} (hparse : ReadsWritten parseUuid)
    (h : LeadsTo (fun user => (users user).map UserRow.mergedInto) n user other) :
    ∃ row, users other = some row ∧
      getProfileWith parseUuid users userId n user.text = .ok (some (other, row)) := by
  induction h with
  | here hend =>
    rename_i n person
    obtain ⟨row, hrow, hinto⟩ := map_eq_some_iff.mp hend
    refine ⟨row, hrow, ?_⟩
    simp only [getProfileWith, hparse person, hrow, hinto]
  | hop hnext rest ih =>
    rename_i n person next other
    obtain ⟨row, hrow, hinto⟩ := map_eq_some_iff.mp hnext
    obtain ⟨last, hlast, hprofile⟩ := ih
    refine ⟨last, hlast, ?_⟩
    have hne : next.text ≠ person.text := by
      intro htext
      have hsame : next = person := some.inj ((hparse next).symm.trans (htext ▸ hparse person))
      exact LeadsTo.not_self (.hop hnext rest) (hsame ▸ hnext)
    simp only [getProfileWith, hparse person, hrow, hinto, ne_eq, hne, not_false_eq_true, if_true,
      hprofile]

theorem SignInInv.resolves (h : SignInInv v5 w) (hparse : ReadsWritten parseUuid)
    (hquiet : w.Quiet) : Resolves parseUuid w := by
  constructor
  · intro login row hrow
    exact lives_iff.mp (h.merges.living login row hrow)
  · intro e he
    obtain ⟨login, hlogin, hreach⟩ := h.named e.login e.userId e.begun (.inl ⟨e, he, rfl, rfl, rfl⟩)
    rcases hreach with hdirect | ⟨call, m, unmoved, hcall, _⟩
    · obtain ⟨row, hrow, hprofile⟩ :=
        @getProfileWith_of_leadsTo _ w.users e.userId.text _ _ _ hparse hdirect
      exact ⟨login, row, hlogin, hrow, hprofile⟩
    · obtain ⟨_, _, _, hbusy, _⟩ := merging_of_merges hcall
      rw [hquiet call] at hbusy
      cases hbusy

/-- **A sign-in names one living person** where nothing disturbs. -/
theorem undisturbed_sign_ins_name_one_person (v5 : String → Uuid) (parseUuid : String → Option Uuid)
    (trim : String → String) (firstLoginJoin : Option (Uuid × String))
    (lesser : String → String → Prop) (hparse : ReadsWritten parseUuid) (start : PeopleWorld)
    (hstart : NoSignIns start) (actions : List PeopleAction) (hundisturbed :
      EveryStep (PeopleWorld.step v5 parseUuid trim firstLoginJoin)
        (fun w a _ => Undisturbed v5 parseUuid lesser w a) start actions) :
    EveryStep (PeopleWorld.step v5 parseUuid trim firstLoginJoin) (KeepsStanding lesser)
        start actions ∧
      ∀ w, runActions (PeopleWorld.step v5 parseUuid trim firstLoginJoin) start actions = some w →
        OneAnswer w ∧ (w.Quiet → Resolves parseUuid w) := by
  have hinv : SignInInv v5 start := hstart.inv
  constructor
  · exact EveryStep.of_invariant
      (fun w a t hinv hstep hundisturbed => hinv.preserved hstep hundisturbed)
      (fun w a t hinv hstep hundisturbed => hinv.keepsStanding hstep hundisturbed) hinv hundisturbed
  · intro w hrun
    have hend := runActions_invariant (fun w a t (hinv : SignInInv v5 w) hstep hundisturbed =>
        hinv.preserved hstep hundisturbed) hinv hundisturbed hrun
    exact ⟨hend.counts.agree, hend.resolves hparse⟩

/-- A statement that nothing can disturb. -/
def PersonCall.plain : PersonCall → Bool
  | .merge _ _ (.checkingSource _) => false
  | .merge _ _ (.recording _ _ _) => false
  | .merge _ _ (.tombstoning _) => false
  | _ => true

theorem undisturbed_starts {request : PersonRequest} :
    Undisturbed v5 parseUuid lesser w (.starts call request) :=
  ⟨⟨by simp, by simp⟩, by simp [Points], by simp, by simp⟩

theorem undisturbed_of_plain (hcall : w.calls call = some c) (hplain : c.plain = true) :
    Undisturbed v5 parseUuid lesser w (.runs call) := by
  refine ⟨⟨by simp, ?_⟩, ?_, ?_, by simp⟩
  · intro other fromUser intoUser source into haction hother
    cases haction
    cases hcall.symm.trans hother
    cases hplain
  · rintro m ⟨other, fromUser, intoUser, haction, hother⟩
    cases haction
    cases hcall.symm.trans hother
    cases hplain
  · intro other fromUser intoUser m row rest haction hother
    cases haction
    cases hcall.symm.trans hother
    cases hplain

/-- A run of such statements. -/
def plainRun (step : PeopleWorld → PeopleAction → Option PeopleWorld) :
    PeopleWorld → List PeopleAction → Bool
  | _, [] => true
  | w, a :: rest =>
    (match a with
      | .starts _ _ => true
      | .runs call => (w.calls call).any PersonCall.plain
      | _ => false) &&
      match step w a with
      | none => true
      | some t => plainRun step t rest

theorem undisturbed_of_plainRun {step : PeopleWorld → PeopleAction → Option PeopleWorld} :
    ∀ {w : PeopleWorld} {actions : List PeopleAction}, plainRun step w actions = true →
      EveryStep step (fun w a _ => Undisturbed v5 parseUuid lesser w a) w actions
  | _, [], _ => trivial
  | w, a :: rest, h => by
    obtain ⟨hplain, hrest⟩ := Bool.and_eq_true_iff.mp h
    intro t hstep
    simp only [hstep] at hrest
    refine ⟨?_, undisturbed_of_plainRun hrest⟩
    cases a with
    | starts => exact undisturbed_starts
    | runs =>
      obtain ⟨c, hcall, hc⟩ := (any_eq_true _ _).mp hplain
      exact undisturbed_of_plain hcall hc
    | creates => cases hplain
    | links => cases hplain
    | fails => cases hplain

private def ann : Uuid :=
  ⟨"00000000-0000-0000-0000-00000000000a", .refl true⟩

private def ben : Uuid :=
  ⟨"00000000-0000-0000-0000-00000000000b", .refl true⟩

private def loginIds (text : String) : Uuid :=
  if text = "login|keycloak|ann" then ann else ben

private def signIn (subject : String) : PersonRequest :=
  .resolve ⟨"keycloak", subject, none, none, true⟩

private def nameless : UserRow :=
  ⟨none, none, none⟩

private def loginOf (subject : String) (id : Uuid) : LoginRow :=
  ⟨"keycloak", subject, id, true, 0⟩

private def twoPeople : PeopleWorld where
  users := fun id => if id = ann ∨ id = ben then some nameless else none
  logins := (InsertionMap.empty.set ann (loginOf "ann" ann)).set ben (loginOf "ben" ben)
  memberships := InsertionMap.empty
  aliases := InsertionMap.empty
  calls := fun _ => none
  answers := []
  loginMoves := 0

/-- A merge of two people, the first of whom has `logins`. -/
private def mergeRun (source into : Uuid) (logins : Nat) : List PeopleAction :=
  .starts 0 (.merge source.text into.text) :: List.replicate (logins + 6) (.runs 0)

private def stepsOf : PeopleWorld → PeopleAction → Option PeopleWorld :=
  PeopleWorld.step loginIds parseHyphenated id none

private def mergedBack : List PeopleAction :=
  [.starts 0 (signIn "ben"), .runs 0] ++ mergeRun ben ann 1 ++ mergeRun ann ben 2

private theorem twoPeople_noSignIns : NoSignIns twoPeople := by
  refine ⟨fun _ => rfl, rfl, ?_⟩
  intro login row hrow
  simp only [twoPeople, InsertionMap.get?_set, InsertionMap.get?_empty] at hrow
  split at hrow
  · cases hrow
    exact ⟨nameless, by decide, rfl⟩
  · split at hrow
    · cases hrow
      exact ⟨nameless, by decide, rfl⟩
    · cases hrow

/-- Up to where a merge of them has read the target. -/
private def beforeSource : List PeopleAction :=
  [.starts 0 (signIn "ben"), .runs 0, .starts 0 (.merge ben.text ann.text), .runs 0]

/-- Up to where it writes the pointer. -/
private def beforePointer : List PeopleAction :=
  beforeSource ++ [.runs 0] ++ List.replicate 4 (.runs 0)

private theorem source_undisturbed :
    Undisturbed loginIds parseHyphenated lesser
      (reached stepsOf twoPeople beforeSource) (.runs 0) := by
  have hcall : (reached stepsOf twoPeople beforeSource).calls 0 =
      some (.merge ben.text ann.text (.checkingSource ann)) := rfl
  have hother : ∀ other, (reached stepsOf twoPeople beforeSource).calls (other + 1) = none :=
    fun _ => rfl
  refine ⟨⟨by simp, ?_⟩, ?_, ?_, by simp⟩
  · intro call fromUser intoUser source into haction hrow hsource
    cases haction
    cases hcall.symm.trans hrow
    have hben : parseHyphenated ben.text = some ben := parseHyphenated_readsWritten ben
    cases hben.symm.trans hsource
    refine ⟨by decide, ⟨nameless, by decide, rfl⟩, ⟨nameless, by decide, rfl⟩, ?_⟩
    rintro other m ⟨_, _, pc, hbusy, hpair⟩
    cases other with
    | zero =>
      cases hcall.symm.trans hbusy
      cases hpair
    | succ n =>
      rw [hother n] at hbusy
      cases hbusy
  · rintro m ⟨call, fromUser, intoUser, haction, hrow⟩
    cases haction
    cases hcall.symm.trans hrow
  · intro call fromUser intoUser m row rest haction hrow
    cases haction
    cases hcall.symm.trans hrow

private theorem pointer_undisturbed :
    Undisturbed loginIds parseHyphenated lesser
      (reached stepsOf twoPeople beforePointer) (.runs 0) := by
  have hcall : (reached stepsOf twoPeople beforePointer).calls 0 =
      some (.merge ben.text ann.text (.tombstoning ⟨ben, ann, nameless, 1⟩)) := rfl
  have hother : ∀ other, (reached stepsOf twoPeople beforePointer).calls (other + 1) = none :=
    fun _ => rfl
  refine ⟨⟨by simp, ?_⟩, ?_, ?_, by simp⟩
  · intro call fromUser intoUser source into haction hrow
    cases haction
    cases hcall.symm.trans hrow
  · rintro m ⟨call, fromUser, intoUser, haction, hrow⟩ login userId begun hnamed _
    cases haction
    cases hcall.symm.trans hrow
    have huser : userId = ben := by
      rcases hnamed with ⟨e, he, _, huser, _⟩ | ⟨other, hlinked⟩
      · have hanswers : (reached stepsOf twoPeople beforePointer).answers = [⟨ben, ben, 0, 0⟩] := by
          decide
        rw [view, hanswers, List.mem_singleton] at he
        subst he
        exact huser.symm
      · cases other with
        | zero =>
          rw [view_standing hcall] at hlinked
          cases hlinked
        | succ n =>
          simp only [view, hother n] at hlinked
          cases hlinked
    subst huser
    exact .here (by decide)
  · intro call fromUser intoUser m row rest haction hrow
    cases haction
    cases hcall.symm.trans hrow

/-- One person signs in, is merged into the other, and signs in again. -/
theorem undisturbed_sign_ins_name_one_person_of_merge :
    ∃ w, runActions stepsOf twoPeople
        (beforePointer ++ [.runs 0] ++ [.starts 0 (signIn "ben"), .runs 0]) = some w ∧
      OneAnswer w ∧
      (w.Quiet → Resolves parseHyphenated w) := by
  have hsource : runActions stepsOf twoPeople beforeSource =
      some (reached stepsOf twoPeople beforeSource) :=
    runActions_reached (by decide)
  have hread : runActions stepsOf twoPeople (beforeSource ++ [.runs 0]) =
      some (reached stepsOf twoPeople (beforeSource ++ [.runs 0])) :=
    runActions_reached (by decide)
  have hpointer : runActions stepsOf twoPeople beforePointer =
      some (reached stepsOf twoPeople beforePointer) :=
    runActions_reached (by decide)
  have hmerged : runActions stepsOf twoPeople (beforePointer ++ [.runs 0]) =
      some (reached stepsOf twoPeople (beforePointer ++ [.runs 0])) :=
    runActions_reached (by decide)
  have hevery : EveryStep stepsOf
      (fun w a _ => Undisturbed loginIds parseHyphenated (fun _ _ => False) w a) twoPeople
      (beforePointer ++ [.runs 0] ++ [.starts 0 (signIn "ben"), .runs 0]) := by
    refine (everyStep_append_iff hmerged).mpr ⟨?_, undisturbed_of_plainRun (by decide)⟩
    refine (everyStep_append_iff hpointer).mpr ⟨?_, fun t _ => ⟨pointer_undisturbed, trivial⟩⟩
    refine (everyStep_append_iff hread).mpr ⟨?_, undisturbed_of_plainRun (by decide)⟩
    refine (everyStep_append_iff hsource).mpr ⟨?_, fun t _ => ⟨source_undisturbed, trivial⟩⟩
    exact undisturbed_of_plainRun (by decide)
  have hrun : runActions stepsOf twoPeople
      (beforePointer ++ [.runs 0] ++ [.starts 0 (signIn "ben"), .runs 0]) =
      some (reached stepsOf twoPeople
        (beforePointer ++ [.runs 0] ++ [.starts 0 (signIn "ben"), .runs 0])) :=
    runActions_reached (by decide)
  exact ⟨_, hrun, (undisturbed_sign_ins_name_one_person loginIds parseHyphenated id none
    (fun _ _ => False) parseHyphenated_readsWritten twoPeople twoPeople_noSignIns _
    hevery).2 _ hrun⟩

/-- **Two people merged into each other**: the login names one that is merged away, and
nobody has a profile. -/
theorem merged_back_names_nobody :
    NoSignIns twoPeople ∧
      runActions stepsOf twoPeople mergedBack = some (reached stepsOf twoPeople mergedBack) ∧
      (reached stepsOf twoPeople mergedBack).Quiet ∧
      ¬ Resolves parseHyphenated (reached stepsOf twoPeople mergedBack) ∧
      getProfile parseHyphenated (reached stepsOf twoPeople mergedBack).users ben.text =
        .error (.rejected s!"merge chain too deep or cyclic for user {ben.text}") := by
  refine ⟨twoPeople_noSignIns, runActions_reached (by decide), ?_, ?_, by decide⟩
  · intro call
    cases call with
    | zero => rfl
    | succ => rfl
  · intro hresolves
    obtain ⟨row, hrow, hinto⟩ := hresolves.living ann (loginOf "ann" ben) (by decide)
    have hmerged : ((reached stepsOf twoPeople mergedBack).users
        (loginOf "ann" ben).userId).bind UserRow.mergedInto = some ann := by
      decide
    rw [hrow, bind_some, hinto] at hmerged
    cases hmerged

end OnePerson

end UserProfile
end StudioWeb
