import StudioWeb.Library.PointerChains
import StudioWeb.UserProfile.SignIns

/-!
# People, sign-ins and merges, without their statements

A view of the calls: which of them have linked a new person, and which merges have how
many logins still to move.  A few changes of it cover every statement, and what they keep
is shown of them.
-/

namespace StudioWeb
namespace UserProfile

open PointerChains List Function

/-- How far a call is. -/
inductive CallStanding where
  /-- It has written nothing that a login names. -/
  | reading (begun : Nat)
  /-- A new person is linked to the login, and is yet to be answered. -/
  | linked (login userId : Uuid) (begun : Nat)
  /-- A merge that has read both people; the logins still to move, once they are listed. -/
  | merging (m : MergePair) (unmoved : Option (List (Uuid × LoginRow)))

structure PeopleView where
  users : Uuid → Option UserRow
  logins : InsertionMap Uuid LoginRow
  standings : Nat → Option CallStanding
  answers : List SignInAnswer
  loginMoves : Nat

namespace PeopleView

def pointer (v : PeopleView) (user : Uuid) : Option (Option Uuid) :=
  (v.users user).map UserRow.mergedInto

/-- A person that is not merged away. -/
def Lives (v : PeopleView) (user : Uuid) : Prop := v.pointer user = some none

def Merges (v : PeopleView) (call : Nat) (m : MergePair)
    (unmoved : Option (List (Uuid × LoginRow))) : Prop :=
  v.standings call = some (.merging m unmoved)

/-- The person was answered for the login, or is about to be. -/
def Named (v : PeopleView) (login userId : Uuid) (begun : Nat) : Prop :=
  (∃ e ∈ v.answers, e.login = login ∧ e.userId = userId ∧ e.begun = begun) ∨
    ∃ call, v.standings call = some (.linked login userId begun)

def setStanding (v : PeopleView) (call : Nat) (standing : Option CallStanding) : PeopleView :=
  { v with standings := Function.update v.standings call standing }

def addAnswer (v : PeopleView) (login userId : Uuid) (begun : Nat) : PeopleView :=
  { v with answers := ⟨login, userId, begun, v.loginMoves⟩ :: v.answers }

end PeopleView

/-- What a statement can change; a call that stops is `failed` or its target is gone, and a
merge that ends has `pointed` its source at its target. -/
inductive ViewChange
    (failed : Nat → Prop) (pointed : MergePair → Prop) (v : PeopleView) :
    PeopleView → Prop
  | same :
      ViewChange failed pointed v v
  | reads
      (call begun : Nat)
      (hbefore : ∀ m unmoved, ¬ v.Merges call m unmoved)
      (hbegun : begun ≤ v.loginMoves) :
      ViewChange failed pointed v (v.setStanding call (some (.reading begun)))
  | stops
      (call : Nat)
      (hstops : ∀ m unmoved, v.Merges call m unmoved → failed call ∨ v.users m.intoUser = none) :
      ViewChange failed pointed v (v.setStanding call none)
  | answersFound
      (call begun : Nat)
      (login : Uuid)
      (row : LoginRow)
      (hcall : v.standings call = some (.reading begun))
      (hrow : v.logins.get? login = some row) :
      ViewChange failed pointed v ((v.setStanding call none).addAnswer login row.userId begun)
  | answersLinked
      (call begun : Nat)
      (login userId : Uuid)
      (hcall : v.standings call = some (.linked login userId begun)) :
      ViewChange failed pointed v ((v.setStanding call none).addAnswer login userId begun)
  | creates
      (user : Uuid)
      (row : UserRow)
      (hnew : v.users user = none) :
      ViewChange failed pointed v { v with users := Function.update v.users user (some row) }
  | links
      (call begun : Nat)
      (login : Uuid)
      (row : LoginRow)
      (hcall : v.standings call = some (.reading begun))
      (hlogin : v.logins.get? login = none)
      (hlives : v.Lives row.userId)
      (hmerged : ∀ other m unmoved, v.Merges other m unmoved → m.fromUser ≠ row.userId) :
      ViewChange failed pointed v ({ v with logins := v.logins.set login row }.setStanding call
          (some (.linked login row.userId begun)))
  | picks
      (call : Nat)
      (m : MergePair)
      (hmoved : m.loginsMoved = 0)
      (happart : m.fromUser ≠ m.intoUser)
      (hfrom : v.Lives m.fromUser)
      (hinto : v.Lives m.intoUser)
      (hnone : ∀ other n unmoved, ¬ v.Merges other n unmoved) :
      ViewChange failed pointed v (v.setStanding call (some (.merging m none)))
  | lists
      (call : Nat)
      (m : MergePair)
      (hcall : v.Merges call m none) :
      ViewChange failed pointed v (v.setStanding call (some (.merging m
        (some (v.logins.entries.filter fun l => l.2.userId = m.fromUser)))))
  | moves
      (call : Nat)
      (m : MergePair)
      (login : Uuid × LoginRow)
      (rest : List (Uuid × LoginRow))
      (row : LoginRow)
      (hcall : v.Merges call m (some (login :: rest)))
      (hrow : row.userId = m.intoUser) :
      ViewChange failed pointed v
        ({ v with
            logins := v.logins.set login.1 row
            loginMoves := v.loginMoves + 1 }.setStanding call
          (some (.merging m.countsLogin (some rest))))
  | tombstones
      (call : Nat)
      (m : MergePair)
      (row : UserRow)
      (hrow : row.mergedInto = some m.intoUser)
      (hcall : v.Merges call m (some []))
      (hpointed : pointed m) :
      ViewChange failed pointed v
        ({ v with users := Function.update v.users m.fromUser (some row) }.setStanding call none)

section View

variable
  {v t : PeopleView}
  {failed : Nat → Prop}
  {pointed : MergePair → Prop}
  {call other : Nat}
  {standing : Option CallStanding}
  {m n : MergePair}
  {unmoved : Option (List (Uuid × LoginRow))}
  {login key userId user : Uuid}
  {begun : Nat}

theorem merges_setStanding (h : (v.setStanding call standing).Merges other m unmoved) :
    (other = call ∧ standing = some (.merging m unmoved)) ∨
      (other ≠ call ∧ v.Merges other m unmoved) := by
  by_cases hother : other = call
  · subst hother
    simp only [PeopleView.Merges, PeopleView.setStanding, update_self] at h
    exact .inl ⟨rfl, h⟩
  · simp only [PeopleView.Merges, PeopleView.setStanding, update_of_ne hother] at h
    exact .inr ⟨hother, h⟩

theorem merges_of_setStanding (h : (v.setStanding call standing).Merges other m unmoved)
    (hquiet : ∀ m unmoved, standing ≠ some (.merging m unmoved)) : v.Merges other m unmoved := by
  rcases merges_setStanding h with ⟨_, hsame⟩ | ⟨_, hold⟩
  · exact absurd hsame (hquiet m unmoved)
  · exact hold

theorem named_setStanding (h : (v.setStanding call standing).Named login userId begun) :
    v.Named login userId begun ∨ standing = some (.linked login userId begun) := by
  rcases h with hanswer | ⟨other, hcall⟩
  · exact .inl (.inl hanswer)
  · by_cases hother : other = call
    · subst hother
      simp only [PeopleView.setStanding, update_self] at hcall
      exact .inr hcall
    · simp only [PeopleView.setStanding, update_of_ne hother] at hcall
      exact .inl (.inr ⟨other, hcall⟩)

theorem named_of_setStanding (h : (v.setStanding call standing).Named login userId begun)
    (hquiet : ∀ login userId begun, standing ≠ some (.linked login userId begun)) :
    v.Named login userId begun :=
  (named_setStanding h).resolve_right (hquiet login userId begun)

theorem named_addAnswer {began : Nat} (h : (v.addAnswer key user began).Named login userId begun) :
    v.Named login userId begun ∨ (login = key ∧ userId = user ∧ begun = began) := by
  rcases h with ⟨e, he, hlogin, huser, hbegun⟩ | hcall
  · rcases mem_cons.mp he with rfl | he
    · exact .inr ⟨hlogin.symm, huser.symm, hbegun.symm⟩
    · exact .inl (.inl ⟨e, he, hlogin, huser, hbegun⟩)
  · exact .inl (.inr hcall)

/-- The logins that a merge has still to move are those of its source. -/
structure Left
    (v : PeopleView) (m : MergePair) (rest : List (Uuid × LoginRow)) : Prop where
  nodup : (rest.map Prod.fst).Nodup
  owned : ∀ l ∈ rest, ∃ row, v.logins.get? l.1 = some row ∧ row.userId = m.fromUser
  all :
    ∀ key row, v.logins.get? key = some row → row.userId = m.fromUser → key ∈ rest.map Prod.fst

structure MergeInv (v : PeopleView) : Prop where
  living : ∀ key row, v.logins.get? key = some row → v.Lives row.userId
  one :
    ∀ call other m n p q, v.Merges call m p → v.Merges other n q → call = other
  apart :
    ∀ call m unmoved, v.Merges call m unmoved →
      m.fromUser ≠ m.intoUser ∧ v.Lives m.fromUser ∧ v.Lives m.intoUser
  unmoved : ∀ call m, v.Merges call m none → m.loginsMoved = 0
  left : ∀ call m rest, v.Merges call m (some rest) → Left v m rest

namespace MergeInv

section

variable (h : MergeInv v)
include h

theorem same_merge {p q : Option (List (Uuid × LoginRow))}
    (hone : v.Merges call m p) (hother : v.Merges other n q) : m = n ∧ p = q := by
  have hsame := h.one call other m n p q hone hother
  subst hsame
  have hcall := hone.symm.trans hother
  simpa using hcall

theorem of_fewer (hlogins : t.logins = v.logins)
    (hlives : ∀ user, v.Lives user → t.Lives user)
    (hmerges : ∀ call m unmoved, t.Merges call m unmoved → v.Merges call m unmoved) :
    MergeInv t := by
  refine ⟨?_, ?_, ?_, ?_, ?_⟩
  · intro key row hrow
    rw [hlogins] at hrow
    exact hlives _ (h.living key row hrow)
  · intro call other m n p q hone hother
    exact h.one call other m n p q (hmerges _ _ _ hone) (hmerges _ _ _ hother)
  · intro call m unmoved hcall
    obtain ⟨hne, hfrom, hinto⟩ := h.apart call m unmoved (hmerges _ _ _ hcall)
    exact ⟨hne, hlives _ hfrom, hlives _ hinto⟩
  · intro call m hcall
    exact h.unmoved call m (hmerges _ _ _ hcall)
  · intro call m rest hcall
    have hleft := h.left call m rest (hmerges _ _ _ hcall)
    constructor
    · exact hleft.nodup
    · rw [hlogins]
      exact hleft.owned
    · rw [hlogins]
      exact hleft.all

theorem setStanding (hquiet : ∀ m unmoved, standing ≠ some (.merging m unmoved)) :
    MergeInv (v.setStanding call standing) :=
  h.of_fewer rfl (fun _ hlives => hlives) fun _ _ _ hcall => merges_of_setStanding hcall hquiet

omit h in
theorem lives_update {row : UserRow} (hnew : v.users user = none) (hlives : v.Lives key) :
    PeopleView.Lives { v with users := Function.update v.users user (some row) } key := by
  have hne : key ≠ user := by
    rintro rfl
    simp [PeopleView.Lives, PeopleView.pointer, hnew] at hlives
  simpa [PeopleView.Lives, PeopleView.pointer, update_of_ne hne] using hlives

theorem links {row : LoginRow} (hlogin : v.logins.get? login = none)
    (hlives : v.Lives row.userId)
    (hmerged : ∀ other m unmoved, v.Merges other m unmoved → m.fromUser ≠ row.userId) :
    MergeInv { v with logins := v.logins.set login row } := by
  refine ⟨?_, h.one, h.apart, h.unmoved, ?_⟩
  · intro key found hfound
    rw [InsertionMap.get?_set] at hfound
    split at hfound
    · cases hfound
      exact hlives
    · exact h.living key found hfound
  · intro call m rest hcall
    have hleft := h.left call m rest hcall
    refine ⟨hleft.nodup, ?_, ?_⟩
    · intro l hl
      obtain ⟨found, hfound, howner⟩ := hleft.owned l hl
      refine ⟨found, ?_, howner⟩
      rw [InsertionMap.get?_set, if_neg, hfound]
      intro heq
      rw [heq, hlogin] at hfound
      cases hfound
    · intro key found hfound howner
      rw [InsertionMap.get?_set] at hfound
      split at hfound
      · cases hfound
        exact absurd howner.symm (hmerged call m _ hcall)
      · exact hleft.all key found hfound howner

theorem picks (hmoved : m.loginsMoved = 0) (happart : m.fromUser ≠ m.intoUser)
    (hfrom : v.Lives m.fromUser) (hinto : v.Lives m.intoUser)
    (hnone : ∀ other n unmoved, ¬ v.Merges other n unmoved) :
    MergeInv (v.setStanding call (some (.merging m none))) := by
  have honly : ∀ other n unmoved,
      (v.setStanding call (some (.merging m none))).Merges other n unmoved →
      other = call ∧ n = m ∧ unmoved = none := by
    intro other n unmoved hother
    rcases merges_setStanding hother with ⟨hcall, hsame⟩ | ⟨_, hold⟩
    · cases hsame
      exact ⟨hcall, rfl, rfl⟩
    · exact absurd hold (hnone other n unmoved)
  refine ⟨h.living, ?_, ?_, ?_, ?_⟩
  · intro one other n k p q hone hother
    exact (honly one n p hone).1.trans (honly other k q hother).1.symm
  · intro other n unmoved hother
    obtain ⟨_, rfl, _⟩ := honly other n unmoved hother
    exact ⟨happart, hfrom, hinto⟩
  · intro other n hother
    obtain ⟨_, rfl, _⟩ := honly other n none hother
    exact hmoved
  · intro other n rest hother
    obtain ⟨_, _, hrest⟩ := honly other n (some rest) hother
    cases hrest

theorem goesOn {rest : List (Uuid × LoginRow)} (hcall : v.Merges call m unmoved)
    (hpair : n.fromUser = m.fromUser ∧ n.intoUser = m.intoUser)
    (hliving : ∀ key row, t.logins.get? key = some row → v.Lives row.userId) (hleft : Left t n rest)
    (husers : t.users = v.users)
    (hstandings : t.standings = Function.update v.standings call (some (.merging n (some rest)))) :
    MergeInv t := by
  have hlives : ∀ user, v.Lives user → t.Lives user := by
    intro user hlives
    simpa [PeopleView.Lives, PeopleView.pointer, husers] using hlives
  have honly : ∀ other k p, t.Merges other k p → other = call ∧ k = n ∧ p = some rest := by
    intro other k p hother
    by_cases hsame : other = call
    · subst hsame
      simp only [PeopleView.Merges, hstandings, update_self, Option.some.injEq,
        CallStanding.merging.injEq] at hother
      exact ⟨rfl, hother.1.symm, hother.2.symm⟩
    · simp only [PeopleView.Merges, hstandings, update_of_ne hsame] at hother
      exact absurd (h.one other call k m p unmoved hother hcall) hsame
  obtain ⟨hne, hfrom, hinto⟩ := h.apart call m unmoved hcall
  refine ⟨?_, ?_, ?_, ?_, ?_⟩
  · intro key row hrow
    exact hlives _ (hliving key row hrow)
  · intro one other k l p q hone hother
    exact (honly one k p hone).1.trans (honly other l q hother).1.symm
  · intro other k p hother
    obtain ⟨_, rfl, _⟩ := honly other k p hother
    rw [hpair.1, hpair.2]
    exact ⟨hne, hlives _ hfrom, hlives _ hinto⟩
  · intro other k hother
    obtain ⟨_, _, hrest⟩ := honly other k none hother
    cases hrest
  · intro other k left hother
    obtain ⟨_, rfl, hrest⟩ := honly other k (some left) hother
    cases hrest
    exact hleft

theorem lists (hcall : v.Merges call m none) :
    MergeInv (v.setStanding call (some (.merging m
      (some (v.logins.entries.filter fun l => l.2.userId = m.fromUser))))) := by
  refine h.goesOn hcall ⟨rfl, rfl⟩ h.living ⟨?_, ?_, ?_⟩ rfl rfl
  · exact v.logins.keys_nodup.sublist ((filter_sublist).map Prod.fst)
  · intro l hl
    obtain ⟨hmem, howner⟩ := mem_filter.mp hl
    exact ⟨l.2, (InsertionMap.get?_eq_some_iff ..).mpr hmem, of_decide_eq_true howner⟩
  · intro key row hrow howner
    have hmem := (InsertionMap.get?_eq_some_iff ..).mp hrow
    exact mem_map.mpr ⟨(key, row), mem_filter.mpr ⟨hmem, decide_eq_true howner⟩, rfl⟩

theorem moves {l : Uuid × LoginRow} {rest : List (Uuid × LoginRow)} {moved : LoginRow}
    (hcall : v.Merges call m (some (l :: rest)))
    (hmoved : moved.userId = m.intoUser) :
    MergeInv
      ({ v with
          logins := v.logins.set l.1 moved
          loginMoves := v.loginMoves + 1 }.setStanding call
        (some (.merging m.countsLogin (some rest)))) := by
  obtain ⟨hne, _, hinto⟩ := h.apart call m _ hcall
  have hleft := h.left call m _ hcall
  have hnodup := nodup_cons.mp hleft.nodup
  refine h.goesOn (n := m.countsLogin) hcall ⟨rfl, rfl⟩ ?_ ⟨hnodup.2, ?_, ?_⟩ rfl rfl
  · intro key row hrow
    simp only [PeopleView.setStanding, InsertionMap.get?_set] at hrow
    split at hrow
    · cases hrow
      rw [hmoved]
      exact hinto
    · exact h.living key row hrow
  · intro k hk
    obtain ⟨row, hrow, howner⟩ := hleft.owned k (mem_cons_of_mem _ hk)
    refine ⟨row, ?_, howner⟩
    have hother : k.1 ≠ l.1 := by
      intro heq
      exact hnodup.1 (heq ▸ mem_map_of_mem hk)
    simp only [PeopleView.setStanding, InsertionMap.get?_set, if_neg hother, hrow]
  · intro key row hrow howner
    simp only [PeopleView.setStanding, InsertionMap.get?_set] at hrow
    split at hrow
    · cases hrow
      exact absurd (howner.symm.trans hmoved) hne
    · next hkey =>
      have hmem := hleft.all key row hrow howner
      exact (mem_cons.mp hmem).resolve_left hkey

omit h in
theorem pointer_update (row : UserRow) :
    PeopleView.pointer { v with users := Function.update v.users user (some row) } =
      Function.update v.pointer user (some row.mergedInto) := by
  funext key
  by_cases hkey : key = user
  · subst hkey
    simp [PeopleView.pointer]
  · simp [PeopleView.pointer, update_of_ne hkey]

theorem source_unnamed {row : LoginRow} (hcall : v.Merges call m (some []))
    (hrow : v.logins.get? key = some row) : row.userId ≠ m.fromUser := by
  intro howner
  have hmem := (h.left call m [] hcall).all key row hrow howner
  exact absurd hmem not_mem_nil

theorem tombstones {row : UserRow} (hcall : v.Merges call m (some [])) :
    MergeInv ({ v with users := Function.update v.users m.fromUser (some row) }.setStanding call
        none) := by
  have hnone : ∀ other n unmoved,
      ¬ ({ v with users := Function.update v.users m.fromUser (some row) }.setStanding call
        none).Merges other n unmoved := by
    intro other n unmoved hother
    rcases merges_setStanding hother with ⟨_, hsame⟩ | ⟨hne, hold⟩
    · cases hsame
    · exact hne (h.one other call n m unmoved _ hold hcall)
  refine ⟨?_, ?_, ?_, ?_, ?_⟩
  · intro key login hlogin
    have hlives := h.living key login hlogin
    have hne := h.source_unnamed hcall hlogin
    simpa [PeopleView.Lives, PeopleView.pointer, PeopleView.setStanding,
      update_of_ne hne] using hlives
  · intro one other n k p q hone
    exact absurd hone (hnone one n p)
  · intro other n unmoved hother
    exact absurd hother (hnone other n unmoved)
  · intro other n hother
    exact absurd hother (hnone other n none)
  · intro other n rest hother
    exact absurd hother (hnone other n (some rest))

/-- **Step**: every change keeps it. -/
theorem preserved (hchange : ViewChange failed pointed v t) : MergeInv t := by
  cases hchange with
  | same => exact h
  | reads => exact h.setStanding (by simp)
  | stops => exact h.setStanding (by simp)
  | answersFound call _ _ _ hcall =>
    have hends : MergeInv (v.setStanding call none) := h.setStanding (by simp)
    exact hends.of_fewer rfl (fun _ hlives => hlives) fun _ _ _ hcall => hcall
  | answersLinked call _ _ _ hcall =>
    have hends : MergeInv (v.setStanding call none) := h.setStanding (by simp)
    exact hends.of_fewer rfl (fun _ hlives => hlives) fun _ _ _ hcall => hcall
  | creates _ _ hnew =>
    exact h.of_fewer rfl (fun _ hlives => lives_update hnew hlives) fun _ _ _ hcall => hcall
  | links _ _ _ _ _ hlogin hlives hmerged =>
    exact (h.links hlogin hlives hmerged).setStanding (by simp)
  | picks _ _ hmoved happart hfrom hinto hnone =>
    exact h.picks hmoved happart hfrom hinto hnone
  | lists _ _ hcall => exact h.lists hcall
  | moves _ _ _ _ _ hcall hrow => exact h.moves hcall hrow
  | tombstones _ _ _ _ hcall => exact h.tombstones hcall

end

end MergeInv

end View

end UserProfile
end StudioWeb
