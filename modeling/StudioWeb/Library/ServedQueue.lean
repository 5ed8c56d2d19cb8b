import Mathlib.Data.List.Nodup
import Mathlib.Data.List.Basic
import Mathlib.Tactic.Common

/-!
# A queue whose head is served where it stands

Elements are accepted once, and may be put in again later.  The element at the head is
run, and a run starts something or fails before it does; the element leaves the queue
when the run is over.  A run may be broken off, and then the element is run again.

The log has what happened, in order.
-/

namespace StudioWeb
namespace ServedQueue

open List

universe u

variable {α : Type u}

/-- How far the element at the head is. -/
inductive Phase where
  | waiting
  | running
  | started
  | failed
deriving DecidableEq

/-- What happened to an element. -/
inductive Entry (α : Type u) where
  | accepted (a : α)
  | requeued (a : α)
  | run (a : α)
  | started (a : α)
deriving DecidableEq

def Entry.element : Entry α → α
  | .accepted a => a
  | .requeued a => a
  | .run a => a
  | .started a => a

structure Queue (α : Type u) where
  pending : List α
  phase : Phase
  log : List (Entry α)

inductive Step (q : Queue α) : Queue α → Prop
  | accept (a : α)
      (hfresh : ∀ e ∈ q.log, e.element ≠ a) :
      Step q { q with pending := q.pending ++ [a], log := q.log ++ [.accepted a] }
  | requeue (a : α)
      (hnew : a ∉ q.pending) :
      Step q { q with pending := q.pending ++ [a], log := q.log ++ [.requeued a] }
  | run (a : α) (rest : List α)
      (hpending : q.pending = a :: rest)
      (hphase : q.phase = .waiting) :
      Step q { q with phase := .running, log := q.log ++ [.run a] }
  | start (a : α) (rest : List α)
      (hpending : q.pending = a :: rest)
      (hphase : q.phase = .running) :
      Step q { q with phase := .started, log := q.log ++ [.started a] }
  | fail
      (hphase : q.phase = .running) :
      Step q { q with phase := .failed }
  /-- The run is broken off, and the element stays. -/
  | abort : Step q { q with phase := .waiting }
  | shift (a : α) (rest : List α)
      (hpending : q.pending = a :: rest)
      (hphase : q.phase = .started ∨ q.phase = .failed) :
      Step q { q with pending := rest, phase := .waiting }

/-- Elements run, and start, in the order in which they were accepted; one that starts
later was put in again before. -/
structure InOrder (log : List (Entry α)) : Prop where
  runs : ∀ a b, [.accepted a, .accepted b].Sublist log →
    ∀ before after, log = before ++ .run b :: after → .run a ∈ before
  starts : ∀ a b, [.accepted a, .accepted b].Sublist log →
    ∀ before after, log = before ++ .started a :: after → .started b ∈ before → .requeued a ∈ before

theorem sublist_append_singleton {log : List (Entry α)} {e x y : Entry α}
    (h : [x, y].Sublist (log ++ [e])) : [x, y].Sublist log ∨ (y = e ∧ x ∈ log) := by
  obtain ⟨first, second, heq, hfirst, hsecond⟩ := sublist_append_iff.mp h
  cases second with
  | nil =>
    rw [append_nil] at heq
    exact Or.inl (heq ▸ hfirst)
  | cons z rest =>
    have hrest : rest = [] ∧ z = e := by
      have hle := hsecond.length_le
      have hnil : rest = [] := by
        cases rest with
        | nil => rfl
        | cons => simp at hle
      subst hnil
      exact ⟨rfl, by simpa using hsecond.subset mem_cons_self⟩
    obtain ⟨rfl, rfl⟩ := hrest
    right
    cases first with
    | nil => simp at heq
    | cons _ first =>
      cases first with
      | nil =>
        simp only [cons_append, nil_append, List.cons.injEq, and_true] at heq
        obtain ⟨rfl, rfl⟩ := heq
        exact ⟨rfl, hfirst.subset mem_cons_self⟩
      | cons => simp at heq

theorem split_append_singleton {β : Type u} {xs before after : List β} {e x : β}
    (h : xs ++ [e] = before ++ x :: after) :
    (∃ after', xs = before ++ x :: after') ∨ (x = e ∧ before = xs) := by
  cases hlast : after.reverse with
  | nil =>
    have hnil : after = [] := by simpa using hlast
    subst hnil
    obtain ⟨hxs, he⟩ := append_inj' h rfl
    exact Or.inr ⟨(singleton_inj.mp he).symm, hxs.symm⟩
  | cons y rest =>
    have hafter : after = rest.reverse ++ [y] := by
      rw [← reverse_reverse after, hlast, reverse_cons]
    subst hafter
    rw [← cons_append, ← append_assoc] at h
    obtain ⟨hxs, _⟩ := append_inj' h rfl
    exact Or.inl ⟨rest.reverse, hxs⟩

section Invariant

/-- Of two elements accepted in turn the first stands before the second, which has not
run; or the first has run, and stands in the queue no more unless it was put in again. -/
def Ordered (q : Queue α) (a b : α) : Prop :=
  (a ∈ q.pending ∧ .run b ∉ q.log ∧ ∀ before after, q.pending = before ++ b :: after → a ∈ before) ∨
    (.run a ∈ q.log ∧ (.requeued a ∈ q.log ∨ a ∉ q.pending))

structure Inv (q : Queue α) : Prop where
  nodup : q.pending.Nodup
  known : ∀ a ∈ q.pending, ∃ e ∈ q.log, e.element = a
  head : q.phase ≠ .waiting → ∃ a rest, q.pending = a :: rest ∧ .run a ∈ q.log
  run_of_started : ∀ a, .started a ∈ q.log → .run a ∈ q.log
  served : ∀ a, .accepted a ∈ q.log → a ∈ q.pending ∨ .run a ∈ q.log
  ordered : ∀ a b, [.accepted a, .accepted b].Sublist q.log → Ordered q a b
  inOrder : InOrder q.log

variable {q t : Queue α}

variable {e : Entry α} {rest : List α} {a : α}

theorem InOrder.append {log : List (Entry α)} (h : InOrder log)
    (hfresh : ∀ b, e = .accepted b → ∀ x ∈ log, x.element ≠ b)
    (hrun : ∀ a b, e = .run b → [.accepted a, .accepted b].Sublist log → .run a ∈ log)
    (hstart : ∀ a b, e = .started a → [.accepted a, .accepted b].Sublist log →
      .started b ∈ log → .requeued a ∈ log) :
    InOrder (log ++ [e]) := by
  constructor
  · intro a b hsublist before after hlog
    rcases split_append_singleton hlog with ⟨after', hold⟩ | ⟨he, rfl⟩
    · rcases sublist_append_singleton hsublist with hsub | ⟨hb, _⟩
      · exact h.runs a b hsub before after' hold
      · have hmem : Entry.run b ∈ log := by
          rw [hold]
          simp
        exact absurd rfl (hfresh b hb.symm _ hmem)
    · rcases sublist_append_singleton hsublist with hsub | ⟨hb, _⟩
      · exact hrun a b he.symm hsub
      · rw [← he] at hb
        cases hb
  · intro a b hsublist before after hlog hstarted
    rcases split_append_singleton hlog with ⟨after', hold⟩ | ⟨he, rfl⟩
    · rcases sublist_append_singleton hsublist with hsub | ⟨hb, _⟩
      · exact h.starts a b hsub before after' hold hstarted
      · have hmem : Entry.started b ∈ log := by
          rw [hold]
          exact mem_append_left _ hstarted
        exact absurd rfl (hfresh b hb.symm _ hmem)
    · rcases sublist_append_singleton hsublist with hsub | ⟨hb, _⟩
      · exact hstart a b he.symm hsub hstarted
      · rw [← he] at hb
        cases hb

theorem Ordered.push {a b c : α} (h : Ordered q a b)
    (hrequeued : c = a → .requeued a ∈ q.log ++ [e]) (hrun : e ≠ .run b) :
    Ordered { q with pending := q.pending ++ [c], log := q.log ++ [e] } a b := by
  rcases h with ⟨ha, hb, hbefore⟩ | ⟨hran, hgone⟩
  · left
    refine ⟨mem_append_left _ ha, ?_, ?_⟩
    · intro hmem
      rcases mem_append.mp hmem with hold | hnew
      · exact hb hold
      · exact hrun (mem_singleton.mp hnew).symm
    · intro before after hsplit
      rcases split_append_singleton hsplit with ⟨after', hold⟩ | ⟨_, rfl⟩
      · exact hbefore before after' hold
      · exact ha
  · right
    refine ⟨mem_append_left _ hran, ?_⟩
    rcases hgone with hput | hgone
    · exact Or.inl (mem_append_left _ hput)
    · by_cases hc : c = a
      · exact Or.inl (hrequeued hc)
      · right
        simp only [mem_append, mem_singleton, not_or]
        exact ⟨hgone, fun heq => hc heq.symm⟩

theorem Ordered.log {a b : α} {phase : Phase} (h : Ordered q a b)
    (hrun : e = .run b → .run a ∈ q.log ∧ (.requeued a ∈ q.log ∨ a ∉ q.pending)) :
    Ordered { q with phase := phase, log := q.log ++ [e] } a b := by
  rcases h with ⟨ha, hb, hbefore⟩ | ⟨hran, hgone⟩
  · by_cases he : e = .run b
    · obtain ⟨hran, hgone⟩ := hrun he
      exact Or.inr ⟨mem_append_left _ hran, hgone.imp_left (mem_append_left _)⟩
    · refine Or.inl ⟨ha, ?_, hbefore⟩
      intro hmem
      rcases mem_append.mp hmem with hold | hnew
      · exact hb hold
      · exact he (mem_singleton.mp hnew).symm
  · exact Or.inr ⟨mem_append_left _ hran, hgone.imp_left (mem_append_left _)⟩

theorem Ordered.of_head {a b : α} (h : Ordered q a b) (hpending : q.pending = b :: rest) :
    .run a ∈ q.log ∧ (.requeued a ∈ q.log ∨ a ∉ q.pending) := by
  rcases h with ⟨_, _, hbefore⟩ | hran
  · cases hbefore [] rest hpending
  · exact hran

section

variable (h : Inv q)
include h

theorem inv_accept (hfresh : ∀ e ∈ q.log, e.element ≠ a) :
    Inv { q with pending := q.pending ++ [a], log := q.log ++ [.accepted a] } := by
  have hnew : a ∉ q.pending := by
    intro hmem
    obtain ⟨e, he, hea⟩ := h.known a hmem
    exact hfresh e he hea
  constructor
  · exact nodup_append.mpr ⟨h.nodup, nodup_singleton a, by
      intro x hx y hy hxy
      rw [mem_singleton.mp hy] at hxy
      exact hnew (hxy ▸ hx)⟩
  · intro b hb
    rcases mem_append.mp hb with hold | hlast
    · obtain ⟨e, he, heb⟩ := h.known b hold
      exact ⟨e, mem_append_left _ he, heb⟩
    · rw [mem_singleton.mp hlast]
      exact ⟨.accepted a, by simp, rfl⟩
  · intro hphase
    obtain ⟨b, rest, hpending, hrun⟩ := h.head hphase
    refine ⟨b, rest ++ [a], ?_, mem_append_left _ hrun⟩
    simp only [hpending, cons_append]
  · intro b hb
    simp only [mem_append, mem_singleton, reduceCtorEq, or_false] at hb ⊢
    exact h.run_of_started b hb
  · intro b hb
    rcases mem_append.mp hb with hold | hlast
    · rcases h.served b hold with hin | hran
      · exact Or.inl (mem_append_left _ hin)
      · exact Or.inr (mem_append_left _ hran)
    · cases mem_singleton.mp hlast
      exact Or.inl (by simp)
  · intro b c hsublist
    rcases sublist_append_singleton hsublist with hold | ⟨hc, hb⟩
    · refine (h.ordered b c hold).push ?_ (by simp)
      intro hab
      have hmem : Entry.accepted b ∈ q.log := hold.subset mem_cons_self
      exact absurd hab.symm (hfresh _ hmem)
    · -- the new element comes after every one that was accepted before
      cases hc
      have hne : b ≠ a := hfresh _ hb
      rcases Classical.em (b ∈ q.pending) with hin | hout
      · left
        refine ⟨mem_append_left _ hin, ?_, ?_⟩
        · intro hmem
          simp only [mem_append, mem_singleton, reduceCtorEq, or_false] at hmem
          exact hfresh _ hmem rfl
        · intro before after hsplit
          rcases split_append_singleton hsplit with ⟨after', hold⟩ | ⟨_, rfl⟩
          · refine absurd ?_ hnew
            rw [hold]
            simp
          · exact hin
      · right
        refine ⟨mem_append_left _ ((h.served b hb).resolve_left hout), Or.inr ?_⟩
        simp [hout, hne]
  · refine h.inOrder.append ?_ ?_ ?_
    · rintro b hb
      cases hb
      exact hfresh
    · intro b c he
      cases he
    · intro b c he
      cases he

theorem inv_requeue (hnew : a ∉ q.pending) :
    Inv { q with pending := q.pending ++ [a], log := q.log ++ [.requeued a] } := by
  constructor
  · exact nodup_append.mpr ⟨h.nodup, nodup_singleton a, by
      intro x hx y hy hxy
      rw [mem_singleton.mp hy] at hxy
      exact hnew (hxy ▸ hx)⟩
  · intro b hb
    rcases mem_append.mp hb with hold | hlast
    · obtain ⟨e, he, heb⟩ := h.known b hold
      exact ⟨e, mem_append_left _ he, heb⟩
    · rw [mem_singleton.mp hlast]
      exact ⟨.requeued a, by simp, rfl⟩
  · intro hphase
    obtain ⟨b, rest, hpending, hrun⟩ := h.head hphase
    refine ⟨b, rest ++ [a], ?_, mem_append_left _ hrun⟩
    simp only [hpending, cons_append]
  · intro b hb
    simp only [mem_append, mem_singleton, reduceCtorEq, or_false] at hb ⊢
    exact h.run_of_started b hb
  · intro b hb
    simp only [mem_append, mem_singleton, reduceCtorEq, or_false] at hb ⊢
    exact (h.served b hb).imp_left Or.inl
  · intro b c hsublist
    rcases sublist_append_singleton hsublist with hold | ⟨hc, _⟩
    · refine (h.ordered b c hold).push ?_ (by simp)
      rintro rfl
      simp
    · cases hc
  · refine h.inOrder.append ?_ ?_ ?_
    · intro b he
      cases he
    · intro b c he
      cases he
    · intro b c he
      cases he

theorem inv_run (hpending : q.pending = a :: rest) :
    Inv { q with phase := .running, log := q.log ++ [.run a] } := by
  constructor
  · exact h.nodup
  · intro b hb
    obtain ⟨e, he, heb⟩ := h.known b hb
    exact ⟨e, mem_append_left _ he, heb⟩
  · exact fun _ => ⟨a, rest, hpending, by simp⟩
  · intro b hb
    simp only [mem_append, mem_singleton, reduceCtorEq, or_false] at hb
    exact mem_append_left _ (h.run_of_started b hb)
  · intro b hb
    simp only [mem_append, mem_singleton, reduceCtorEq, or_false] at hb
    exact (h.served b hb).imp_right (mem_append_left _)
  · intro b c hsublist
    rcases sublist_append_singleton hsublist with hold | ⟨hc, _⟩
    · refine (h.ordered b c hold).log ?_
      intro he
      cases he
      exact (h.ordered b a hold).of_head hpending
    · cases hc
  · refine h.inOrder.append ?_ ?_ ?_
    · intro b he
      cases he
    · intro b c he hsublist
      cases he
      exact ((h.ordered b a hsublist).of_head hpending).1
    · intro b c he
      cases he

theorem inv_start (hpending : q.pending = a :: rest) (hphase : q.phase = .running) :
    Inv { q with phase := .started, log := q.log ++ [.started a] } := by
  obtain ⟨a', rest', hpending', hrun⟩ := h.head (by rw [hphase]; exact Phase.noConfusion)
  rw [hpending] at hpending'
  cases hpending'
  constructor
  · exact h.nodup
  · intro b hb
    obtain ⟨e, he, heb⟩ := h.known b hb
    exact ⟨e, mem_append_left _ he, heb⟩
  · exact fun _ => ⟨a, rest, hpending, mem_append_left _ hrun⟩
  · intro b hb
    rcases mem_append.mp hb with hold | hlast
    · exact mem_append_left _ (h.run_of_started b hold)
    · cases mem_singleton.mp hlast
      exact mem_append_left _ hrun
  · intro b hb
    simp only [mem_append, mem_singleton, reduceCtorEq, or_false] at hb
    exact (h.served b hb).imp_right (mem_append_left _)
  · intro b c hsublist
    rcases sublist_append_singleton hsublist with hold | ⟨hc, _⟩
    · exact (h.ordered b c hold).log fun he => by cases he
    · cases hc
  · refine h.inOrder.append ?_ ?_ ?_
    · intro b he
      cases he
    · intro b c he
      cases he
    · intro b c he hsublist hstarted
      cases he
      -- the second has run, so the first is in the queue because it was put in again
      rcases h.ordered a c hsublist with ⟨_, hnot, _⟩ | ⟨_, hput | hgone⟩
      · exact absurd (h.run_of_started c hstarted) hnot
      · exact hput
      · rw [hpending] at hgone
        exact absurd mem_cons_self hgone

theorem inv_shift (hpending : q.pending = a :: rest)
    (hrun : .run a ∈ q.log) : Inv { q with pending := rest, phase := .waiting } := by
  have hnodup : a ∉ rest ∧ rest.Nodup := by
    have hall := h.nodup
    rw [hpending] at hall
    exact nodup_cons.mp hall
  constructor
  · exact hnodup.2
  · intro b hb
    refine h.known b ?_
    rw [hpending]
    exact mem_cons_of_mem _ hb
  · exact fun hphase => absurd rfl hphase
  · exact h.run_of_started
  · intro b hb
    rcases h.served b hb with hin | hran
    · rw [hpending] at hin
      rcases mem_cons.mp hin with rfl | hrest
      · exact Or.inr hrun
      · exact Or.inl hrest
    · exact Or.inr hran
  · intro b c hsublist
    rcases h.ordered b c hsublist with ⟨hin, hnot, hbefore⟩ | ⟨hran, hgone⟩
    · by_cases hab : b = a
      · subst hab
        exact Or.inr ⟨hrun, Or.inr hnodup.1⟩
      · left
        rw [hpending] at hin
        refine ⟨(mem_cons.mp hin).resolve_left hab, hnot, ?_⟩
        intro before after hsplit
        dsimp only at hsplit
        have hmem := hbefore (a :: before) after (by rw [hpending, hsplit]; rfl)
        exact (mem_cons.mp hmem).resolve_left hab
    · right
      refine ⟨hran, hgone.imp_right ?_⟩
      intro hout hin
      rw [hpending] at hout
      exact hout (mem_cons_of_mem _ hin)
  · exact h.inOrder

theorem inv_phase {phase : Phase} (hhead : phase ≠ .waiting → q.phase ≠ .waiting) :
    Inv { q with phase := phase } :=
  ⟨h.nodup, h.known, fun hphase => h.head (hhead hphase), h.run_of_started, h.served,
    h.ordered, h.inOrder⟩

/-- **The steps keep the invariant.** -/
theorem Step.inv (hstep : Step q t) : Inv t := by
  cases hstep with
  | accept _ hfresh => exact inv_accept h hfresh
  | requeue _ hnew => exact inv_requeue h hnew
  | run _ _ hpending => exact inv_run h hpending
  | start _ _ hpending hphase => exact inv_start h hpending hphase
  | fail hphase =>
    refine inv_phase h fun _ => ?_
    rw [hphase]
    exact Phase.noConfusion
  | abort => exact inv_phase h fun hphase => absurd rfl hphase
  | shift _ _ hpending hphase =>
    have hbusy : q.phase ≠ .waiting := by
      rcases hphase with heq | heq <;> rw [heq] <;> exact Phase.noConfusion
    obtain ⟨a', rest', hpending', hrun⟩ := h.head hbusy
    rw [hpending] at hpending'
    cases hpending'
    exact inv_shift h hpending hrun

end

theorem inv_empty : Inv (⟨[], .waiting, []⟩ : Queue α) := by
  refine ⟨nodup_nil, ?_, ?_, ?_, ?_, ?_, ?_, ?_⟩
  · intro a ha
    cases ha
  · exact fun h => absurd rfl h
  · intro a ha
    cases ha
  · intro a ha
    cases ha
  · intro a b hsublist
    cases hsublist
  · intro a b hsublist
    cases hsublist
  · intro a b hsublist
    cases hsublist

end Invariant

section Promise

variable {q t : Queue α} {a : α}

/-- The element is in the queue, and not yet started there. -/
def Promised (q : Queue α) (a : α) : Prop :=
  a ∈ q.pending ∧ ∀ rest, q.pending = a :: rest → q.phase = .waiting ∨ q.phase = .running

theorem Step.log (hstep : Step q t) : ∃ more, t.log = q.log ++ more := by
  cases hstep with
  | accept a => exact ⟨[.accepted a], rfl⟩
  | requeue a => exact ⟨[.requeued a], rfl⟩
  | run a => exact ⟨[.run a], rfl⟩
  | start a => exact ⟨[.started a], rfl⟩
  | fail => exact ⟨[], (append_nil _).symm⟩
  | abort => exact ⟨[], (append_nil _).symm⟩
  | shift => exact ⟨[], (append_nil _).symm⟩

theorem Promised.push {b : α} {log : List (Entry α)} (h : Promised q a) :
    Promised { q with pending := q.pending ++ [b], log := log } a := by
  refine ⟨mem_append_left _ h.1, ?_⟩
  intro rest hsplit
  dsimp only at hsplit ⊢
  cases hpending : q.pending with
  | nil =>
    have hmem := h.1
    rw [hpending] at hmem
    cases hmem
  | cons _ others =>
    rw [hpending, cons_append, List.cons.injEq] at hsplit
    exact h.2 others (by rw [hpending, hsplit.1])

/-- **A promise is kept**: the element is started, or still to be, unless its run fails
before it starts. -/
theorem Step.promised (h : Promised q a) (hstep : Step q t)
    (howned : ∀ rest, q.pending = a :: rest → q.phase = .running → t.phase ≠ .failed) :
    t.log = q.log ++ [.started a] ∨ Promised t a := by
  cases hstep with
  | accept => exact Or.inr h.push
  | requeue => exact Or.inr h.push
  | run => exact Or.inr ⟨h.1, fun _ _ => Or.inr rfl⟩
  | start b _ hpending =>
    by_cases hab : b = a
    · exact Or.inl (by rw [hab])
    · right
      refine ⟨h.1, ?_⟩
      intro rest' hrest'
      dsimp only at hrest'
      rw [hpending, List.cons.injEq] at hrest'
      exact absurd hrest'.1 hab
  | fail hphase =>
    right
    refine ⟨h.1, ?_⟩
    intro rest hpending
    exact absurd rfl (howned rest hpending hphase)
  | abort => exact Or.inr ⟨h.1, fun _ _ => Or.inl rfl⟩
  | shift _ rest hpending hphase =>
    right
    refine ⟨?_, fun _ _ => Or.inl rfl⟩
    have hmem := h.1
    rw [hpending] at hmem
    rcases mem_cons.mp hmem with rfl | hrest
    · rcases h.2 rest hpending with heq | heq <;> rcases hphase with heq' | heq' <;>
        rw [heq] at heq' <;> cases heq'
    · exact hrest

end Promise

end ServedQueue
end StudioWeb
