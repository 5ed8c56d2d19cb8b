import Mathlib.Data.List.Basic

/-!
# A state that is kept as the log of its changes

Reading the file back makes the changes again.  A crash may leave a part of the last line,
so that line alone may be unreadable.
-/

namespace StudioWeb
namespace ReplayedLog

variable {σ ε : Type} {accept : σ → ε → Except String σ} {corrupted : String → String}

/-- Read lines back; a line is its event, or why it cannot be read. -/
def replay (corrupted : String → String) (accept : σ → ε → Except String σ) :
    σ → List (Except String ε) → Except String σ
  | s, [] => .ok s
  | s, .ok event :: rest => accept s event >>= fun t => replay corrupted accept t rest
  | s, [.error _] => .ok s
  | _, .error reason :: _ :: _ => .error (corrupted reason)

variable {s t u : σ} {events : List ε} {event : ε}

theorem replay_append (rest : List (Except String ε))
    (h : replay corrupted accept s (events.map .ok) = .ok t) :
    replay corrupted accept s (events.map .ok ++ rest) = replay corrupted accept t rest := by
  induction events generalizing s with
  | nil =>
    cases h
    rfl
  | cons event events ih =>
    simp only [List.map_cons, List.cons_append, replay] at h ⊢
    cases haccept : accept s event with
    | error =>
      rw [haccept] at h
      cases h
    | ok next =>
      rw [haccept] at h
      exact ih h

section

variable (h : replay corrupted accept s (events.map .ok) = .ok t)
include h

/-- A whole line more, with its newline or without. -/
theorem replay_whole (haccept : accept t event = .ok u) :
    replay corrupted accept s (events.map .ok ++ [.ok event]) = .ok u := by
  rw [replay_append _ h, replay, haccept]
  rfl

theorem replay_part (reason : String) :
    replay corrupted accept s (events.map .ok ++ [.error reason]) = .ok t := by
  rw [replay_append _ h]
  rfl

end

end ReplayedLog
end StudioWeb
