import Mathlib.Data.List.Basic
import Mathlib.Tactic.Common

/-!
# A list in pieces of bounded weight

A list is cut into pieces from the left, each as long as its weight stays in the bound.
-/

namespace StudioWeb

open List

universe u

section WeightedPieces

variable {α : Type u} (weight : α → Nat) (bound : Nat)

/-- The longest front of a list that fits the room, and the rest. -/
def takeWeight : Nat → List α → List α × List α
  | _, [] => ([], [])
  | room, x :: rest =>
    if weight x ≤ room then
      let cut := takeWeight (room - weight x) rest
      (x :: cut.1, cut.2)
    else
      ([], x :: rest)

/-- At most `fuel` pieces. -/
def piecesWith : Nat → List α → List (List α)
  | 0, _ => []
  | _ + 1, [] => []
  | fuel + 1, x :: rest =>
    let cut := takeWeight weight bound (x :: rest)
    cut.1 :: piecesWith fuel cut.2

def pieces (xs : List α) : List (List α) := piecesWith weight bound xs.length xs

variable {weight bound}
variable {xs : List α} {room fuel more : Nat}

theorem takeWeight_append :
    (takeWeight weight room xs).1 ++ (takeWeight weight room xs).2 = xs := by
  induction xs generalizing room with
  | nil => rfl
  | cons x _ ih =>
    by_cases hfits : weight x ≤ room
    · simp [takeWeight, hfits, ih]
    · simp [takeWeight, hfits]

theorem length_takeWeight_lt {x : α} (hfits : weight x ≤ room) :
    (takeWeight weight room (x :: xs)).2.length < (x :: xs).length := by
  have hlength := congrArg List.length (@takeWeight_append _ weight xs (room - weight x))
  simp only [length_append] at hlength
  simp only [takeWeight, hfits, if_true, length_cons]
  omega

section

variable (hbound : ∀ x, weight x ≤ bound)
include hbound

theorem piecesWith_of_le (hfuel : xs.length ≤ fuel)
    (hmore : xs.length ≤ more) :
    piecesWith weight bound fuel xs = piecesWith weight bound more xs := by
  induction fuel generalizing xs more with
  | zero =>
    have hnil : xs = [] := eq_nil_of_length_eq_zero (by omega)
    subst hnil
    cases more <;> rfl
  | succ _ ih =>
    cases xs with
    | nil => cases more <;> rfl
    | cons x rest =>
      cases more with
      | zero => simp at hmore
      | succ more =>
        have hlt := @length_takeWeight_lt _ weight rest bound x (hbound x)
        simp only [length_cons] at hfuel hmore hlt
        simp only [piecesWith]
        rw [@ih _ more (by omega) (by omega)]

/-- The first piece and the pieces of the rest. -/
theorem pieces_of_ne_nil (hne : xs ≠ []) :
    pieces weight bound xs = (takeWeight weight bound xs).1 ::
        pieces weight bound (takeWeight weight bound xs).2 := by
  cases xs with
  | nil => exact absurd rfl hne
  | cons x rest =>
    have hlt := @length_takeWeight_lt _ weight rest bound x (hbound x)
    simp only [length_cons] at hlt
    simp only [pieces, length_cons, piecesWith]
    rw [piecesWith_of_le hbound (by omega) (Nat.le_refl _)]

/-- **The pieces are the list.** -/
theorem flatten_pieces :
    (pieces weight bound xs).flatten = xs := by
  have hfuel : ∀ fuel : Nat, ∀ xs : List α, xs.length ≤ fuel →
      (piecesWith weight bound fuel xs).flatten = xs := by
    intro fuel
    induction fuel with
    | zero =>
      intro xs hlength
      have hnil : xs = [] := eq_nil_of_length_eq_zero (by omega)
      subst hnil
      rfl
    | succ _ ih =>
      intro xs hlength
      cases xs with
      | nil => rfl
      | cons x rest =>
        have hlt := @length_takeWeight_lt _ weight rest bound x (hbound x)
        simp only [length_cons] at hlength hlt
        simp only [piecesWith, flatten_cons]
        rw [ih _ (by omega)]
        exact takeWeight_append
  exact hfuel xs.length xs (Nat.le_refl _)

end

/-- Elements of weight 1 are counted. -/
theorem takeWeight_of_unit (hunit : ∀ x ∈ xs, weight x = 1) :
    takeWeight weight room xs = (xs.take room, xs.drop room) := by
  induction xs generalizing room with
  | nil => simp [takeWeight]
  | cons x rest ih =>
    have hx : weight x = 1 := hunit x mem_cons_self
    have hrest : ∀ y ∈ rest, weight y = 1 :=
      fun y hy => hunit y (mem_cons_of_mem _ hy)
    cases room with
    | zero => simp [takeWeight, hx]
    | succ => simp [takeWeight, hx, ih hrest]

end WeightedPieces

end StudioWeb
