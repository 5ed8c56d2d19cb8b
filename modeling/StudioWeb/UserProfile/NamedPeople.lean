import StudioWeb.UserProfile.PeopleView

/-!
# Whom the sign-ins were answered with

**Results.**
* `NamedInv.preserved`: whoever was named for a login leads to the person it names now.
* `CountInv.preserved`: between two moves of logins, a login has one answer.
-/

namespace StudioWeb
namespace UserProfile

open PointerChains List Function

section Named

variable
  {v t : PeopleView}
  {failed : Nat → Prop}
  {pointed : MergePair → Prop}
  {call other : Nat}
  {standing : Option CallStanding}
  {m n : MergePair}
  {unmoved : Option (List (Uuid × LoginRow))}
  {login key userId user : Uuid}
  {begun : Nat}

/-- A person that was named for a login leads to the person it names, or, while a merge
moves its logins, to the source of the merge. -/
def PeopleView.Reaches (v : PeopleView) (login userId : Uuid) : Prop :=
  ∃ row, v.logins.get? login = some row ∧ (LeadsTo v.pointer 8 userId row.userId ∨
      ∃ call m unmoved, v.Merges call m unmoved ∧ 0 < m.loginsMoved ∧
        row.userId = m.intoUser ∧ LeadsTo v.pointer 8 userId m.fromUser)

def NamedInv (v : PeopleView) : Prop :=
  ∀ login userId begun, v.Named login userId begun → v.Reaches login userId

namespace NamedInv

theorem reaches_of_same (h : v.Reaches login userId)
    (hlogin : t.logins.get? login = v.logins.get? login)
    (hleads : ∀ user, LeadsTo v.pointer 8 userId user → LeadsTo t.pointer 8 userId user)
    (hmerges : ∀ call m unmoved,
      v.Merges call m unmoved → 0 < m.loginsMoved → ∃ left, t.Merges call m left) :
    t.Reaches login userId := by
  obtain ⟨row, hrow, hreach⟩ := h
  refine ⟨row, hlogin.trans hrow, ?_⟩
  rcases hreach with hdirect | ⟨call, m, unmoved, hcall, hmoved, hinto, hfrom⟩
  · exact .inl (hleads _ hdirect)
  · obtain ⟨left, hstill⟩ := hmerges call m unmoved hcall hmoved
    exact .inr ⟨call, m, left, hstill, hmoved, hinto, hleads _ hfrom⟩

theorem merges_kept (hquiet : ∀ m unmoved, v.Merges call m unmoved → m.loginsMoved = 0) :
    ∀ other m unmoved, v.Merges other m unmoved → 0 < m.loginsMoved →
      ∃ left, (v.setStanding call standing).Merges other m left := by
  intro other m unmoved hother hmoved
  have hne : other ≠ call := by
    rintro rfl
    have := hquiet m unmoved hother
    omega
  refine ⟨unmoved, ?_⟩
  simpa [PeopleView.Merges, PeopleView.setStanding, update_of_ne hne] using hother

theorem quiet_of_standing {now : CallStanding} (hcall : v.standings call = some now)
    (hnow : ∀ m unmoved, now ≠ .merging m unmoved) :
    ∀ m unmoved, v.Merges call m unmoved → m.loginsMoved = 0 := by
  intro m unmoved hmerges
  have hsame := Option.some.inj (hcall.symm.trans hmerges)
  exact absurd hsame (hnow m unmoved)

theorem reaches_living {row : LoginRow} (hrow : v.logins.get? login = some row)
    (hlives : v.Lives row.userId) : v.Reaches login row.userId :=
  ⟨row, hrow, .inl (.here hlives)⟩

theorem links {row : LoginRow} (h : NamedInv v) (hcall : v.standings call = some (.reading begun))
    (hlogin : v.logins.get? login = none) (hlives : v.Lives row.userId) :
    NamedInv ({ v with logins := v.logins.set login row }.setStanding call
        (some (.linked login row.userId begun))) := by
  intro key userId began hnamed
  rcases named_setStanding hnamed with hold | hnew
  · have hreach := h key userId began hold
    have hne : key ≠ login := by
      rintro rfl
      obtain ⟨found, hfound, _⟩ := hreach
      rw [hlogin] at hfound
      cases hfound
    refine reaches_of_same hreach ?_ (fun _ hleads => hleads) ?_
    · simp only [PeopleView.setStanding, InsertionMap.get?_set, if_neg hne]
    · exact merges_kept (quiet_of_standing hcall (by simp))
  · cases hnew
    exact reaches_living (InsertionMap.get?_set_self ..) hlives

theorem moves {l : Uuid × LoginRow} {rest : List (Uuid × LoginRow)} {moved : LoginRow}
    (h : NamedInv v) (hinv : MergeInv v) (hcall : v.Merges call m (some (l :: rest)))
    (hmoved : moved.userId = m.intoUser) :
    NamedInv
      ({ v with
          logins := v.logins.set l.1 moved
          loginMoves := v.loginMoves + 1 }.setStanding call
        (some (.merging m.countsLogin (some rest)))) := by
  intro key userId began hnamed
  have hold := named_of_setStanding hnamed (by simp)
  obtain ⟨row, hrow, hreach⟩ := h key userId began hold
  have hgoes : ∀ t : PeopleView, t.standings = Function.update v.standings call
        (some (.merging m.countsLogin (some rest))) → t.Merges call m.countsLogin (some rest) := by
    intro t ht
    simp [PeopleView.Merges, ht]
  have hcounts : 0 < m.countsLogin.loginsMoved := Nat.succ_pos _
  obtain ⟨hne, _, _⟩ := hinv.apart call m _ hcall
  by_cases hkey : key = l.1
  · subst hkey
    obtain ⟨found, hfound, howner⟩ := (hinv.left call m _ hcall).owned l mem_cons_self
    rw [hfound] at hrow
    cases hrow
    refine ⟨moved, InsertionMap.get?_set_self .., .inr ?_⟩
    refine ⟨call, m.countsLogin, some rest, hgoes _ rfl, hcounts, hmoved, ?_⟩
    rcases hreach with hdirect | ⟨other, n, unmoved, hother, _, hinto, _⟩
    · rw [howner] at hdirect
      exact hdirect
    · obtain ⟨rfl, _⟩ := hinv.same_merge hcall hother
      exact absurd (howner.symm.trans hinto) hne
  · refine ⟨row, ?_, ?_⟩
    · simp only [PeopleView.setStanding, InsertionMap.get?_set, if_neg hkey, hrow]
    · rcases hreach with hdirect | ⟨other, n, unmoved, hother, _, hinto, hfrom⟩
      · exact .inl hdirect
      · obtain ⟨rfl, _⟩ := hinv.same_merge hcall hother
        exact .inr ⟨call, m.countsLogin, some rest, hgoes _ rfl, hcounts, hinto, hfrom⟩

theorem tombstones {row : UserRow} (h : NamedInv v) (hinv : MergeInv v)
    (hrow : row.mergedInto = some m.intoUser) (hcall : v.Merges call m (some []))
    (hdepth : ∀ login userId begun, v.Named login userId begun →
      LeadsTo v.pointer 8 userId m.fromUser → LeadsTo v.pointer 7 userId m.fromUser) :
    NamedInv ({ v with users := Function.update v.users m.fromUser (some row) }.setStanding call
        none) := by
  intro key userId began hnamed
  have hold : v.Named key userId began := named_of_setStanding hnamed (by simp)
  obtain ⟨login, hlogin, hreach⟩ := h key userId began hold
  obtain ⟨hne, hfrom, hinto⟩ := hinv.apart call m _ hcall
  have hpointer : PeopleView.pointer
      ({ v with users := Function.update v.users m.fromUser (some row) }.setStanding call
        none) = Function.update v.pointer m.fromUser (some (some m.intoUser)) := by
    rw [← hrow]
    exact MergeInv.pointer_update row
  refine ⟨login, hlogin, .inl ?_⟩
  rw [hpointer]
  rcases hreach with hdirect | ⟨other, n, unmoved, hother, _, hsame, hsource⟩
  · exact hdirect.redirect_of_ne hfrom (hinv.source_unnamed hcall hlogin)
  · obtain ⟨rfl, _⟩ := hinv.same_merge hcall hother
    rw [hsame]
    exact (hdepth key userId began hold hsource).redirect hinto hne.symm

/-- **Step**: every change keeps it; a merge that fails has moved no login. -/
theorem preserved (h : NamedInv v) (hinv : MergeInv v)
    (hfailed : ∀ call m unmoved, failed call → v.Merges call m unmoved → m.loginsMoved = 0)
    (hdepth : ∀ m, pointed m → ∀ login userId begun, v.Named login userId begun →
      LeadsTo v.pointer 8 userId m.fromUser → LeadsTo v.pointer 7 userId m.fromUser)
    (hchange : ViewChange failed pointed v t) : NamedInv t := by
  cases hchange with
  | same => exact h
  | reads _ _ hbefore =>
    intro key userId began hnamed
    refine reaches_of_same (h key userId began (named_of_setStanding hnamed (by simp))) rfl
      (fun _ hleads => hleads) (merges_kept ?_)
    intro m unmoved hcall
    exact absurd hcall (hbefore m unmoved)
  | stops call hstops =>
    intro key userId began hnamed
    refine reaches_of_same (h key userId began (named_of_setStanding hnamed (by simp))) rfl
      (fun _ hleads => hleads) (merges_kept ?_)
    intro m unmoved hcall
    rcases hstops m unmoved hcall with hfails | hgone
    · exact hfailed call m unmoved hfails hcall
    · have hlives := (hinv.apart call m unmoved hcall).2.2
      simp [PeopleView.Lives, PeopleView.pointer, hgone] at hlives
  | answersFound call _ _ row hcall hrow =>
    intro key userId began hnamed
    have hkept := @merges_kept v call none (quiet_of_standing hcall (by simp))
    rcases named_addAnswer hnamed with hold | ⟨rfl, rfl, _⟩
    · exact reaches_of_same (h key userId began (named_of_setStanding hold (by simp))) rfl
        (fun _ hleads => hleads) hkept
    · exact reaches_living hrow (hinv.living _ row hrow)
  | answersLinked call _ _ _ hcall =>
    intro key user began hnamed
    have hkept := @merges_kept v call none (quiet_of_standing hcall (by simp))
    refine reaches_of_same (h key user began ?_) rfl (fun _ hleads => hleads) hkept
    rcases named_addAnswer hnamed with hold | ⟨rfl, rfl, rfl⟩
    · exact named_of_setStanding hold (by simp)
    · exact .inr ⟨call, hcall⟩
  | creates _ _ hnew =>
    intro key userId began hnamed
    refine reaches_of_same (h key userId began hnamed) rfl ?_
      (fun call m unmoved hcall _ => ⟨unmoved, hcall⟩)
    intro other hleads
    rw [MergeInv.pointer_update]
    refine hleads.add ?_
    simp [PeopleView.pointer, hnew]
  | links _ _ _ _ hcall hlogin hlives => exact h.links hcall hlogin hlives
  | picks _ _ _ _ _ _ hnone =>
    intro key userId began hnamed
    refine reaches_of_same (h key userId began (named_of_setStanding hnamed (by simp))) rfl
      (fun _ hleads => hleads) ?_
    intro other n unmoved hother
    exact absurd hother (hnone other n unmoved)
  | lists call _ hcall =>
    intro key userId began hnamed
    refine reaches_of_same (h key userId began (named_of_setStanding hnamed (by simp))) rfl
      (fun _ hleads => hleads) (merges_kept ?_)
    intro n unmoved hother
    obtain ⟨rfl, _⟩ := hinv.same_merge hcall hother
    exact hinv.unmoved call _ hcall
  | moves _ _ _ _ _ hcall hrow => exact h.moves hinv hcall hrow
  | tombstones _ m _ hrow hcall hpointed =>
    exact h.tombstones hinv hrow hcall (hdepth m hpointed)

end NamedInv

/-- What the answers have in common, counted by the logins that merges moved. -/
structure CountInv (v : PeopleView) : Prop where
  begun : ∀ login userId begun, v.Named login userId begun → begun ≤ v.loginMoves
  reading : ∀ call begun, v.standings call = some (.reading begun) → begun ≤ v.loginMoves
  ended : ∀ e ∈ v.answers, e.begun ≤ e.ended ∧ e.ended ≤ v.loginMoves
  /-- While no login is moved, a login names whom it was answered with. -/
  current :
    ∀ login userId, v.Named login userId v.loginMoves →
      ∃ row, v.logins.get? login = some row ∧ row.userId = userId
  agree :
    ∀ e ∈ v.answers, ∀ f ∈ v.answers, e.login = f.login → e.begun = f.ended → f.begun = e.ended →
      e.userId = f.userId

namespace CountInv

theorem of_same (h : CountInv v) (hanswers : t.answers = v.answers)
    (hmoves : t.loginMoves = v.loginMoves)
    (hnamed : ∀ login userId begun, t.Named login userId begun → v.Named login userId begun)
    (hlogins : ∀ login row, v.logins.get? login = some row → t.logins.get? login = some row)
    (hreading : ∀ call begun, t.standings call = some (.reading begun) → begun ≤ v.loginMoves) :
    CountInv t := by
  refine ⟨?_, ?_, ?_, ?_, ?_⟩
  · intro login userId begun h'
    rw [hmoves]
    exact h.begun login userId begun (hnamed _ _ _ h')
  · intro call begun h'
    rw [hmoves]
    exact hreading call begun h'
  · rw [hanswers, hmoves]
    exact h.ended
  · intro login userId h'
    rw [hmoves] at h'
    obtain ⟨row, hrow, howner⟩ := h.current login userId (hnamed _ _ _ h')
    exact ⟨row, hlogins login row hrow, howner⟩
  · rw [hanswers]
    exact h.agree

theorem reading_setStanding (h : CountInv v)
    (hstanding : ∀ begun, standing = some (.reading begun) → begun ≤ v.loginMoves) :
    ∀ other begun, (v.setStanding call standing).standings other = some (.reading begun) →
      begun ≤ v.loginMoves := by
  intro other begun hother
  by_cases hsame : other = call
  · subst hsame
    simp only [PeopleView.setStanding, update_self] at hother
    exact hstanding begun hother
  · simp only [PeopleView.setStanding, update_of_ne hsame] at hother
    exact h.reading other begun hother

theorem setStanding (h : CountInv v)
    (hstanding : ∀ begun, standing = some (.reading begun) → begun ≤ v.loginMoves)
    (hquiet : ∀ login userId begun, standing ≠ some (.linked login userId begun)) :
    CountInv (v.setStanding call standing) :=
  h.of_same rfl rfl (fun _ _ _ hnamed => named_of_setStanding hnamed hquiet)
    (fun _ _ hrow => hrow) (h.reading_setStanding hstanding)

theorem addAnswer (h : CountInv v) (hbegun : begun ≤ v.loginMoves)
    (hcurrent : begun = v.loginMoves →
      ∃ row, v.logins.get? login = some row ∧ row.userId = userId) :
    CountInv (v.addAnswer login userId begun) := by
  have hold : ∀ e ∈ v.answers, e.login = login → e.begun = v.loginMoves → begun = e.ended →
      e.userId = userId := by
    intro e he hlogin hfirst hsecond
    have hended := h.ended e he
    have hnow : begun = v.loginMoves := by
      omega
    obtain ⟨row, hrow, howner⟩ := hcurrent hnow
    obtain ⟨found, hfound, hfoundOwner⟩ :=
      h.current e.login e.userId (.inl ⟨e, he, rfl, rfl, hfirst⟩)
    rw [hlogin, hrow] at hfound
    cases hfound
    exact hfoundOwner.symm.trans howner
  refine ⟨?_, h.reading, ?_, ?_, ?_⟩
  · intro key user began hnamed
    rcases named_addAnswer hnamed with hbefore | ⟨_, _, rfl⟩
    · exact h.begun key user began hbefore
    · exact hbegun
  · intro e he
    rcases mem_cons.mp he with rfl | he
    · exact ⟨hbegun, Nat.le_refl _⟩
    · exact h.ended e he
  · intro key user hnamed
    rcases named_addAnswer hnamed with hbefore | ⟨rfl, rfl, hnow⟩
    · exact h.current key user hbefore
    · exact hcurrent hnow.symm
  · intro e he f hf hlogin hfirst hsecond
    rcases mem_cons.mp he with rfl | he
    · rcases mem_cons.mp hf with rfl | hf
      · rfl
      · exact (hold f hf hlogin.symm hsecond hfirst).symm
    · rcases mem_cons.mp hf with rfl | hf
      · exact hold e he hlogin hfirst hsecond
      · exact h.agree e he f hf hlogin hfirst hsecond

theorem links {row : LoginRow} (h : CountInv v) (hcall : v.standings call = some (.reading begun))
    (hlogin : v.logins.get? login = none) :
    CountInv ({ v with logins := v.logins.set login row }.setStanding call
        (some (.linked login row.userId begun))) := by
  refine ⟨?_, h.reading_setStanding (by simp), h.ended, ?_, h.agree⟩
  · intro key user began hafter
    rcases named_setStanding hafter with hold | hnew
    · exact h.begun key user began hold
    · cases hnew
      exact h.reading call begun hcall
  · intro key user hafter
    rcases named_setStanding hafter with hold | hnew
    · obtain ⟨found, hfound, howner⟩ := h.current key user hold
      have hne : key ≠ login := by
        rintro rfl
        rw [hlogin] at hfound
        cases hfound
      refine ⟨found, ?_, howner⟩
      simp only [PeopleView.setStanding, InsertionMap.get?_set, if_neg hne, hfound]
    · simp only [Option.some.injEq, CallStanding.linked.injEq] at hnew
      obtain ⟨rfl, rfl, _⟩ := hnew
      exact ⟨row, InsertionMap.get?_set_self .., rfl⟩

theorem moves {l : Uuid × LoginRow} {rest : List (Uuid × LoginRow)} {moved : LoginRow}
    (h : CountInv v) :
    CountInv
      ({ v with
          logins := v.logins.set l.1 moved
          loginMoves := v.loginMoves + 1 }.setStanding call
        (some (.merging m.countsLogin (some rest)))) := by
  have hbefore : ∀ key user began,
      ({ v with
          logins := v.logins.set l.1 moved
          loginMoves := v.loginMoves + 1 }.setStanding call
        (some (.merging m.countsLogin (some rest)))).Named key user began →
      began ≤ v.loginMoves := by
    intro key user began hafter
    exact h.begun key user began (named_of_setStanding hafter (by simp))
  refine ⟨?_, ?_, ?_, ?_, h.agree⟩
  · intro key user began hafter
    exact Nat.le_succ_of_le (hbefore key user began hafter)
  · intro other began hother
    exact Nat.le_succ_of_le (h.reading_setStanding (by simp) other began hother)
  · intro e he
    have hended := h.ended e he
    exact ⟨hended.1, Nat.le_succ_of_le hended.2⟩
  · intro key user hafter
    exact absurd (hbefore key user _ hafter) (Nat.not_succ_le_self _)

/-- **Step**: every change keeps it. -/
theorem preserved (h : CountInv v) (hchange : ViewChange failed pointed v t) : CountInv t := by
  cases hchange with
  | same => exact h
  | reads _ _ _ hbegun => exact h.setStanding (by simpa using hbegun) (by simp)
  | stops => exact h.setStanding (by simp) (by simp)
  | answersFound call begun _ row hcall hrow =>
    have hends : CountInv (v.setStanding call none) := h.setStanding (by simp) (by simp)
    exact hends.addAnswer (h.reading call begun hcall) fun _ => ⟨row, hrow, rfl⟩
  | answersLinked call begun login userId hcall =>
    have hends : CountInv (v.setStanding call none) := h.setStanding (by simp) (by simp)
    have hpending : v.Named login userId begun := .inr ⟨call, hcall⟩
    refine hends.addAnswer (h.begun login userId begun hpending) ?_
    intro hnow
    exact h.current login userId (hnow ▸ hpending)
  | creates =>
    exact h.of_same rfl rfl (fun _ _ _ hafter => hafter) (fun _ _ hrow => hrow) h.reading
  | links _ _ _ _ hcall hlogin => exact h.links hcall hlogin
  | picks => exact h.setStanding (by simp) (by simp)
  | lists => exact h.setStanding (by simp) (by simp)
  | moves => exact h.moves
  | tombstones =>
    exact h.of_same rfl rfl (fun _ _ _ hafter => named_of_setStanding hafter (by simp))
      (fun _ _ hlogin => hlogin) (h.reading_setStanding (by simp))

end CountInv

end Named

end UserProfile
end StudioWeb
