import Mathlib.Data.List.Basic

/-!
# Histories that keep a number of entries, and some for ever

A history is trimmed from the front: an entry stays while fewer than `cap` are kept,
when it is special, and when it is the first with its key.  The loop counts what it
keeps; what it keeps is decided by the entries in front alone.
-/

namespace StudioWeb
namespace CappedHistory

open List

universe u v

variable {α : Type u} {κ : Type v} [DecidableEq κ]
variable (cap : Nat) (special : α → Bool) (key : α → Option κ)

/-- The entry has a key that is not among those seen. -/
def isFirst (seen : List κ) (x : α) : Bool :=
  match key x with
  | some k => k ∉ seen
  | none => false

/-- The keys seen after an entry. -/
def seeing (seen : List κ) (x : α) : List κ :=
  match key x with
  | some k => k :: seen
  | none => seen

/-- The loop of `retain`, with the keys seen and the number kept. -/
def retainCapped : List κ → Nat → List α → List α
  | _, _, [] => []
  | seen, kept, x :: rest =>
    if isFirst key seen x || special x || kept < cap then
      x :: retainCapped (seeing key seen x) (kept + 1) rest
    else
      retainCapped (seeing key seen x) kept rest

/-- The entries in front leave this one in the history. -/
def spared (front : List α) (x : α) : Bool :=
  isFirst key (front.filterMap key) x || special x || front.length < cap

def keepSpared : List α → List α → List α
  | _, [] => []
  | front, x :: rest =>
    if spared cap special key front x then
      x :: keepSpared (front ++ [x]) rest
    else
      keepSpared (front ++ [x]) rest

variable {cap} {special} {key}

theorem isFirst_congr {seen seen' : List κ} (h : ∀ k, k ∈ seen ↔ k ∈ seen') (x : α) :
    isFirst key seen x = isFirst key seen' x := by
  unfold isFirst
  cases key x with
  | none => rfl
  | some k => simp [h k]

omit [DecidableEq κ] in
theorem mem_seeing {seen : List κ} {front : List α} (h : ∀ k, k ∈ seen ↔ k ∈ front.filterMap key)
    (x : α) (k : κ) : k ∈ seeing key seen x ↔ k ∈ (front ++ [x]).filterMap key := by
  rw [filterMap_append, mem_append, ← h k]
  unfold seeing
  cases hkey : key x with
  | none => simp [hkey]
  | some => simp [hkey, or_comm]

/-- The loop keeps the entries that those in front of them spare. -/
theorem retainCapped_eq {seen : List κ} {kept : Nat} {front : List α}
    (hseen : ∀ k, k ∈ seen ↔ k ∈ front.filterMap key)
    (hshort : front.length < cap → kept = front.length) (hlong : cap ≤ front.length → cap ≤ kept)
    (xs : List α) :
    retainCapped cap special key seen kept xs = keepSpared cap special key front xs := by
  induction xs generalizing seen kept front with
  | nil => rfl
  | cons x _ ih =>
    have hcount : decide (kept < cap) = decide (front.length < cap) := by
      rw [decide_eq_decide]
      constructor
      · intro hkept
        by_contra hnot
        have := hlong (by omega)
        omega
      · intro hfront
        rw [hshort hfront]
        exact hfront
    have hcond : (isFirst key seen x || special x || decide (kept < cap)) =
        spared cap special key front x := by
      rw [hcount, isFirst_congr hseen]
      rfl
    have hlen : (front ++ [x]).length = front.length + 1 := by
      simp
    unfold retainCapped keepSpared
    rw [hcond]
    by_cases hspared : spared cap special key front x = true
    · rw [if_pos hspared, if_pos hspared]
      congr 1
      apply ih (mem_seeing hseen x)
      · intro h
        rw [hlen] at h ⊢
        rw [hshort (by omega)]
      · intro h
        rw [hlen] at h
        by_cases hfront : front.length < cap
        · have := hshort hfront
          omega
        · have := hlong (by omega)
          omega
    · have hfull : cap ≤ front.length := by
        by_contra hnot
        apply hspared
        unfold spared
        have hfront : decide (front.length < cap) = true := by
          rw [decide_eq_true_eq]
          omega
        rw [hfront, Bool.or_true]
      rw [if_neg hspared, if_neg hspared]
      apply ih (mem_seeing hseen x)
      · intro h
        rw [hlen] at h
        omega
      · intro _
        exact hlong hfull

theorem keepSpared_sublist (front xs : List α) :
    (keepSpared cap special key front xs).Sublist xs := by
  induction xs generalizing front with
  | nil => exact List.Sublist.refl _
  | cons x _ ih =>
    unfold keepSpared
    split
    · exact (ih _).cons_cons x
    · exact (ih _).cons x

theorem keepSpared_cons (front rest : List α) (x : α) :
    keepSpared cap special key front (x :: rest) =
      if spared cap special key front x then
        x :: keepSpared cap special key (front ++ [x]) rest
      else
        keepSpared cap special key (front ++ [x]) rest := by
  rfl

theorem keepSpared_append (front xs ys : List α) :
    keepSpared cap special key front (xs ++ ys) = keepSpared cap special key front xs ++
        keepSpared cap special key (front ++ xs) ys := by
  induction xs generalizing front with
  | nil => simp [keepSpared]
  | cons x rest ih =>
    have hfront : front ++ [x] ++ rest = front ++ x :: rest := by
      simp
    rw [cons_append, keepSpared_cons, keepSpared_cons, ih, hfront]
    split
    · rfl
    · rfl

theorem mem_keepSpared_iff {front xs : List α} {x : α} :
    x ∈ keepSpared cap special key front xs ↔ ∃ before behind, xs = before ++ x :: behind ∧
        spared cap special key (front ++ before) x = true := by
  induction xs generalizing front with
  | nil => simp [keepSpared]
  | cons y rest ih =>
    have hrest : x ∈ keepSpared cap special key (front ++ [y]) rest ↔
        ∃ before behind, y :: rest = y :: before ++ x :: behind ∧
          spared cap special key (front ++ y :: before) x = true := by
      rw [ih]
      simp
    constructor
    · intro hmem
      unfold keepSpared at hmem
      split at hmem
      next hspared =>
        rcases mem_cons.mp hmem with rfl | hmem
        · exact ⟨[], rest, rfl, by simpa using hspared⟩
        · obtain ⟨before, behind, h⟩ := hrest.mp hmem
          exact ⟨y :: before, behind, h⟩
      next =>
        obtain ⟨before, behind, h⟩ := hrest.mp hmem
        exact ⟨y :: before, behind, h⟩
    · rintro ⟨before, behind, hxs, hspared⟩
      unfold keepSpared
      cases before with
      | nil =>
        simp only [nil_append, List.cons.injEq] at hxs
        obtain ⟨rfl, rfl⟩ := hxs
        rw [append_nil] at hspared
        rw [if_pos hspared]
        exact mem_cons_self
      | cons z before =>
        have hz : y = z := by
          simp only [cons_append, List.cons.injEq] at hxs
          exact hxs.1
        subst hz
        have hmem := hrest.mpr ⟨before, behind, hxs, hspared⟩
        split
        · exact mem_cons_of_mem _ hmem
        · exact hmem

end CappedHistory
end StudioWeb
