import Mathlib.Logic.Function.Basic

/-!
# A line of turns that is handed over by promises

A party that joins the line waits for the promise of the one that joined last, and makes its
own: it is resolved after the promise waited for is and the party has released its turn, and
at any time after that.  The last one in the line is forgotten when it releases its turn, so
that the next one to join waits for nobody.

Parties are numbered as they join.
-/

namespace StudioWeb

open Function

/-- Who has joined, and how far each has come. -/
structure PromiseLine where
  joined : Nat
  tail : Option Nat
  previous : Nat → Option Nat
  entered : Nat → Bool
  released : Nat → Bool
  resolved : Nat → Bool

namespace PromiseLine

def empty : PromiseLine := ⟨0, none, fun _ => none, fun _ => false, fun _ => false, fun _ => false⟩

/-- The promise that a party waits for is resolved. -/
def isReady (line : PromiseLine) (i : Nat) : Bool := (line.previous i).all line.resolved

def join (line : PromiseLine) : PromiseLine :=
  { line with
    joined := line.joined + 1
    tail := some line.joined
    previous := Function.update line.previous line.joined line.tail }

/-- The promise of a party resolves. -/
def settle (line : PromiseLine) (i : Nat) : Option PromiseLine :=
  if line.released i && line.isReady i then
    some { line with resolved := Function.update line.resolved i true }
  else
    none

def enter (line : PromiseLine) (i : Nat) : Option PromiseLine :=
  if decide (i < line.joined) && !line.entered i && line.isReady i then
    some { line with entered := Function.update line.entered i true }
  else
    none

/-- A party releases its turn, and is forgotten when it is the last. -/
def leave (line : PromiseLine) (i : Nat) : Option PromiseLine :=
  if line.entered i && !line.released i then
    some
      { line with
        released := Function.update line.released i true
        tail := if line.tail = some i then none else line.tail }
  else
    none

def InTurn (line : PromiseLine) (i : Nat) : Prop := line.entered i = true ∧ line.released i = false

/-- Everyone before the party has released its turn. -/
def DoneBefore (line : PromiseLine) (i : Nat) : Prop := ∀ j, j < i → line.released j = true

structure InOrder (line : PromiseLine) : Prop where
  follows : ∀ i j, line.previous i = some j → j + 1 = i
  free : ∀ i, i < line.joined → line.previous i = none → line.DoneBefore i
  entered : ∀ i, line.entered i = true → i < line.joined ∧ line.DoneBefore i
  released : ∀ i, line.released i = true → line.entered i = true
  resolved : ∀ i, line.resolved i = true → line.released i = true
  last : ∀ i, line.tail = some i → i + 1 = line.joined
  idle : line.tail = none → line.DoneBefore line.joined

section Order

variable {line next : PromiseLine} {i j : Nat}

theorem inOrder_empty : empty.InOrder where
  follows := nofun
  free := nofun
  entered := nofun
  released := nofun
  resolved := nofun
  last := nofun
  idle _ j hj := absurd hj (Nat.not_lt_zero j)

/-- Whoever may enter has nobody left before it. -/
theorem InOrder.before_of_ready (h : line.InOrder) (hi : i < line.joined)
    (hready : line.isReady i = true) : line.DoneBefore i := by
  cases hprevious : line.previous i with
  | none => exact h.free i hi hprevious
  | some k =>
    have hresolved : line.resolved k = true := by
      unfold isReady at hready
      rw [hprevious] at hready
      exact hready
    have hk := h.resolved k hresolved
    have hbefore := (h.entered k (h.released k hk)).2
    have hnext := h.follows i k hprevious
    intro j hj
    rcases Nat.lt_or_ge j k with hlt | hge
    · exact hbefore j hlt
    · have hjk : j = k := by omega
      rw [hjk]
      exact hk

/-- One turn at a time. -/
theorem InOrder.exclusive (h : line.InOrder) (hi : line.InTurn i) (hj : line.InTurn j) : i = j := by
  rcases Nat.lt_trichotomy i j with hlt | heq | hgt
  · have hreleased := (h.entered j hj.1).2 i hlt
    rw [hi.2] at hreleased
    cases hreleased
  · exact heq
  · have hreleased := (h.entered i hi.1).2 j hgt
    rw [hj.2] at hreleased
    cases hreleased

@[simp] theorem previous_join_self : line.join.previous line.joined = line.tail := update_self ..

theorem previous_join_of_ne (h : i ≠ line.joined) : line.join.previous i = line.previous i :=
  update_of_ne h ..

theorem eq_or_of_update {f : Nat → Bool} (h : Function.update f i true j = true) :
    j = i ∨ f j = true := by
  by_cases heq : j = i
  · exact .inl heq
  · rw [update_of_ne heq] at h
    exact .inr h

theorem update_of {f : Nat → Bool} (h : f j = true) : Function.update f i true j = true := by
  by_cases heq : j = i
  · rw [heq, update_self]
  · rw [update_of_ne heq]
    exact h

theorem inOrder_join (h : line.InOrder) :
    line.join.InOrder where
  follows := by
    intro i j hprevious
    by_cases hi : i = line.joined
    · rw [hi, previous_join_self] at hprevious
      rw [hi]
      exact h.last j hprevious
    · rw [previous_join_of_ne hi] at hprevious
      exact h.follows i j hprevious
  free := by
    intro i hi hprevious
    by_cases heq : i = line.joined
    · rw [heq, previous_join_self] at hprevious
      rw [heq]
      exact h.idle hprevious
    · rw [previous_join_of_ne heq] at hprevious
      have hlt : i < line.joined := by
        have hle : i < line.joined + 1 := hi
        omega
      exact h.free i hlt hprevious
  entered := by
    intro i hi
    obtain ⟨hlt, hbefore⟩ := h.entered i hi
    exact ⟨Nat.lt_succ_of_lt hlt, hbefore⟩
  released := h.released
  resolved := h.resolved
  last := by
    rintro i ⟨⟩
    rfl
  idle := nofun

theorem inOrder_settle (h : line.InOrder) (hsettle : line.settle i = some next) : next.InOrder := by
  unfold settle at hsettle
  split at hsettle
  · next hcond =>
    cases hsettle
    rw [Bool.and_eq_true] at hcond
    refine ⟨h.follows, h.free, h.entered, h.released, ?_, h.last, h.idle⟩
    intro j hj
    rcases eq_or_of_update hj with rfl | hold
    · exact hcond.1
    · exact h.resolved j hold
  · cases hsettle

theorem enter_spec (henter : line.enter i = some next) :
    i < line.joined ∧ line.entered i = false ∧ line.isReady i = true ∧
      next = { line with entered := Function.update line.entered i true } := by
  unfold enter at henter
  split at henter
  · next hcond =>
    cases henter
    simp only [Bool.and_eq_true, decide_eq_true_eq, Bool.not_eq_true'] at hcond
    exact ⟨hcond.1.1, hcond.1.2, hcond.2, rfl⟩
  · cases henter

theorem inOrder_enter (h : line.InOrder) (henter : line.enter i = some next) : next.InOrder := by
  obtain ⟨hjoined, -, hready, rfl⟩ := enter_spec henter
  refine ⟨h.follows, h.free, ?_, ?_, h.resolved, h.last, h.idle⟩
  · intro j hj
    rcases eq_or_of_update hj with rfl | hold
    · exact ⟨hjoined, h.before_of_ready hjoined hready⟩
    · exact h.entered j hold
  · intro j hj
    exact update_of (h.released j hj)

theorem leave_spec (hleave : line.leave i = some next) :
    line.InTurn i ∧
      next =
        { line with
          released := Function.update line.released i true
          tail := if line.tail = some i then none else line.tail } := by
  unfold leave at hleave
  split at hleave
  · next hcond =>
    cases hleave
    simp only [Bool.and_eq_true, Bool.not_eq_true'] at hcond
    exact ⟨hcond, rfl⟩
  · cases hleave

theorem inOrder_leave (h : line.InOrder) (hleave : line.leave i = some next) : next.InOrder := by
  obtain ⟨⟨hentered, -⟩, rfl⟩ := leave_spec hleave
  refine ⟨h.follows, fun k hk hprevious j hj => update_of (h.free k hk hprevious j hj), ?_, ?_,
    fun k hk => update_of (h.resolved k hk), ?_, ?_⟩
  · intro k hk
    obtain ⟨hlt, hbefore⟩ := h.entered k hk
    exact ⟨hlt, fun j hj => update_of (hbefore j hj)⟩
  · intro k hk
    rcases eq_or_of_update hk with rfl | hold
    · exact hentered
    · exact h.released k hold
  · intro k hk
    dsimp only at hk
    split at hk
    · cases hk
    · exact h.last k hk
  · intro htail j hj
    dsimp only at htail hj
    split at htail
    · next hlast =>
      -- The party was the last to join, so that the others have all been before it.
      have hjoined := h.last i hlast
      rcases Nat.lt_or_ge j i with hlt | hge
      · exact update_of ((h.entered i hentered).2 j hlt)
      · have hji : j = i := by omega
        rw [hji]
        exact update_self ..
    · exact update_of (h.idle htail j hj)

end Order

end PromiseLine

end StudioWeb
