import Mathlib.Logic.Function.Basic
import Mathlib.Data.Nat.Basic
import Mathlib.Tactic.ByContra

/-!
# A copy that is written after the truth

A truth, by key, and a copy of it that is served once it is published.  An operation
writes the truth first and the copy in later steps; between the two, other operations
of any process go on.  A fill clears the copy, reads the truth part by part, copies what
it read where the copy has nothing, and publishes the copy when the generation of its
process is still the one it began under.  An operation that removes something, or whose
write of the copy fails, moves that generation; the one that fails unpublishes the copy.

Operations are named by the moment of their write of the truth, and `written` tells the
last such moment of a key.  A key is `Covered` while the operation that wrote it last has
still to write it in the copy.
-/

namespace StudioWeb
namespace WriteThrough

open Option Function

universe u v w

variable {P : Type u} {K : Type v} {V : Type w}

/-- What one write does to the copy: which keys it sets, and to what. -/
abbrev Change (K : Type v) (V : Type w) := K → Option (Option V)

def Change.apply (c : Change K V) (copy : K → Option V) (k : K) : Option V := (c k).getD (copy k)

/-- What some writes in turn set a key to. -/
def settle : List (Change K V) → K → Option (Option V)
  | [], _ => none
  | c :: rest, k => (settle rest k).or (c k)

/-- An operation that has written the truth. -/
structure Op (P : Type u) (K : Type v) (V : Type w) where
  process : P
  /-- It has moved the generation. -/
  bumped : Bool
  /-- The writes of the copy still to come. -/
  rest : List (Change K V)
  /-- A write of the copy failed; the copy is to be unpublished. -/
  withdraws : Bool

/-- How far a fill is with a key. -/
inductive Part (V : Type w) where
  | uncleared
  | cleared (since : Nat)
  | read (readAt : Nat) (value : Option V)
  | copied

def Part.value : Part V → Option V
  | .read _ value => value
  | _ => none

structure Fill (K : Type v) (V : Type w) where
  generation : Nat
  /-- The generation was found unchanged. -/
  checked : Bool
  part : K → Part V

structure State (P : Type u) (K : Type v) (V : Type w) where
  truth : K → Option V
  copy : K → Option V
  published : Bool
  clock : Nat
  written : K → Nat
  ops : Nat → Option (Op P K V)
  generation : P → Nat
  fills : P → Option (Fill K V)

/-- The operation that wrote the key last has still to write it in the copy. -/
def State.Covered (s : State P K V) (k : K) : Prop :=
  ∃ o, s.ops (s.written k) = some o ∧ (settle o.rest k).isSome = true

section Steps

variable [DecidableEq P]

/-- The operation after its next write. -/
def Op.next (o : Op P K V) (rest : List (Change K V)) : Option (Op P K V) :=
  if rest.isEmpty then none else some { o with rest := rest }

def State.setOp (s : State P K V) (n : Nat) (o : Option (Op P K V)) : State P K V :=
  { s with ops := Function.update s.ops n o }

def State.setFill (s : State P K V) (p : P) (f : Option (Fill K V)) : State P K V :=
  { s with fills := Function.update s.fills p f }

def State.bump (s : State P K V) (p : P) : State P K V :=
  { s with generation := Function.update s.generation p (s.generation p + 1) }

inductive Step (s : State P K V) : State P K V → Prop
  /-- The truth is written, and the writes of the copy to come say what it is then. -/
  | write (o : Op P K V) (truth : K → Option V)
      (hbumped : o.bumped = false)
      (hwithdraws : o.withdraws = false)
      (hcovers : ∀ k, truth k ≠ s.truth k → (settle o.rest k).isSome = true)
      (hsettles : ∀ k v, settle o.rest k = some v → v = truth k) :
      Step s
        (({ s with
          truth := truth
          clock := s.clock + 1
          written := fun k => if (settle o.rest k).isSome then s.clock else s.written k
        } : State P K V).setOp s.clock (some o))
  | bump (n : Nat) (o : Op P K V)
      (ho : s.ops n = some o) :
      Step s ((s.bump o.process).setOp n (some { o with bumped := true }))
  /-- A write of the copy: the last operation on every key of it is still under way, and
  it removes nothing that a fill of another process has read and not yet copied. -/
  | apply (n : Nat) (o : Op P K V) (c : Change K V) (rest : List (Change K V))
      (ho : s.ops n = some o)
      (hrest : o.rest = c :: rest)
      (hcurrent : ∀ k, (c k).isSome = true → s.Covered k)
      (hremoves : ∀ k, c k = some none → o.bumped = true ∧
        ∀ p f, s.fills p = some f → p ≠ o.process → ∀ r v, f.part k = .read r v → n < r) :
      Step s (({ s with copy := c.apply s.copy } : State P K V).setOp n (o.next rest))
  /-- A write of the copy fails, and every fill can tell, or has not yet cleared what the
  operation wrote. -/
  | fail (n : Nat) (o : Op P K V) (copy : K → Option V)
      (ho : s.ops n = some o)
      (hcopy : ∀ k, (settle o.rest k).isSome = false → copy k = s.copy k)
      (hfills : ∀ p f, s.fills p = some f → (p = o.process ∧ f.checked = false) ∨
        ∀ k, (settle o.rest k).isSome = true → f.part k = .uncleared) :
      Step s ((({ s with copy := copy } : State P K V).bump o.process).setOp n
        (some { o with rest := [], withdraws := true }))
  /-- An operation withdraws without having written. -/
  | withdraw (p : P) :
      Step s ((({ s with clock := s.clock + 1 } : State P K V).bump p).setOp s.clock
        (some ⟨p, false, [], true⟩))
  | unpublish (n : Nat) (o : Op P K V)
      (ho : s.ops n = some o)
      (hwithdraws : o.withdraws = true) :
      Step s (({ s with published := false } : State P K V).setOp n none)
  /-- The copy could not be unpublished, and was not published. -/
  | unpublishFails (n : Nat) (o : Op P K V)
      (ho : s.ops n = some o)
      (hwithdraws : o.withdraws = true)
      (hpublished : s.published = false) :
      Step s (s.setOp n none)
  /-- A fill begins where there is none, of an unpublished copy. -/
  | begin (p : P)
      (hfills : ∀ q, s.fills q = none)
      (hpublished : s.published = false) :
      Step s (s.setFill p (some ⟨s.generation p, false, fun _ => .uncleared⟩))
  | clear (p : P) (f : Fill K V) (region : K → Bool)
      (hf : s.fills p = some f)
      (hchecked : f.checked = false) :
      Step s (({ s with copy := fun k => if region k then none else s.copy k
        } : State P K V).setFill p (some { f with
          part := fun k => if region k then .cleared s.clock else f.part k }))
  /-- What a fill reads is the truth, or is missing where the truth is not old. -/
  | read (p : P) (f : Fill K V) (region : K → Bool) (value : K → Option V)
      (hf : s.fills p = some f)
      (hchecked : f.checked = false)
      (hread : ∀ k, region k = true → ∃ since, f.part k = .cleared since ∧
        (value k = s.truth k ∨ value k = none) ∧
        (value k = none → s.truth k = none ∨ since ≤ s.written k)) :
      Step s (s.setFill p (some { f with
        part := fun k => if region k then .read s.clock (value k) else f.part k }))
  | copy (p : P) (f : Fill K V) (region : K → Bool)
      (hf : s.fills p = some f)
      (hchecked : f.checked = false)
      (hread : ∀ k, region k = true → ∃ r v, f.part k = .read r v) :
      Step s (({ s with
          copy := fun k => if region k then (s.copy k).or (f.part k).value else s.copy k
        } : State P K V).setFill p (some { f with
          part := fun k => if region k then .copied else f.part k }))
  | check (p : P) (f : Fill K V)
      (hf : s.fills p = some f)
      (hcopied : ∀ k, f.part k = .copied)
      (hgeneration : s.generation p = f.generation) :
      Step s (s.setFill p (some { f with checked := true }))
  | publish (p : P) (f : Fill K V)
      (hf : s.fills p = some f)
      (hchecked : f.checked = true) :
      Step s (({ s with published := true } : State P K V).setFill p none)
  | abort (p : P) :
      Step s (s.setFill p none)

end Steps

section Invariant

/-- What is known of a key, by how far the fill is with it. -/
def PartOk (s : State P K V) (k : K) : Part V → Prop
  | .uncleared => True
  | .cleared since => since ≤ s.clock ∧
      (s.copy k = s.truth k ∨ s.Covered k ∨ (s.copy k = none ∧ s.written k < since))
  | .read r value => r ≤ s.clock ∧
      (s.copy k ≠ none → s.copy k = s.truth k ∨ s.Covered k) ∧
      (s.copy k = none → value = s.truth k ∨ s.Covered k) ∧
      (s.written k < r → value = s.truth k ∨ value = none)
  | .copied => s.copy k = s.truth k ∨ s.Covered k

/-- The fill is published unless it is aborted. -/
def State.Sound (s : State P K V) (p : P) (f : Fill K V) : Prop :=
  f.checked = true ∨ s.generation p = f.generation

/-- The operations: none is of a later moment, one that withdraws writes no more, and
the last writer of a key has the truth of it. -/
structure OpsOk (s : State P K V) : Prop where
  written_lt : ∀ k, s.written k < s.clock
  ops_lt : ∀ n o, s.ops n = some o → n < s.clock
  withdraws : ∀ n o, s.ops n = some o → o.withdraws = true → o.rest = []
  settles : ∀ k o v, s.ops (s.written k) = some o → settle o.rest k = some v → v = s.truth k

structure FillsOk (s : State P K V) : Prop where
  single : ∀ p q f g, s.fills p = some f → s.fills q = some g → p = q
  unpublished : ∀ p f, s.fills p = some f → s.published = false
  generation_le : ∀ p f, s.fills p = some f → f.generation ≤ s.generation p
  checked_copied : ∀ p f, s.fills p = some f → f.checked = true → ∀ k, f.part k = .copied
  bumped_before : ∀ p f n o, s.fills p = some f → f.checked = false →
    s.generation p = f.generation → s.ops n = some o → o.process = p → o.bumped = true →
    ∀ k r v, f.part k = .read r v → n < r
  parts : ∀ p f, s.fills p = some f → s.Sound p f → ∀ k, PartOk s k (f.part k)

structure Inv (s : State P K V) : Prop where
  ops : OpsOk s
  fills : FillsOk s
  published : s.published = true →
    (∀ k, s.copy k = s.truth k ∨ s.Covered k) ∨ ∃ n o, s.ops n = some o ∧ o.withdraws = true

variable {s t : State P K V} {k : K}

/-- **A published copy is the truth** when nothing is under way. -/
theorem Inv.copy_eq (h : Inv s) (hpublished : s.published = true) (hidle : ∀ n, s.ops n = none)
    (k : K) : s.copy k = s.truth k := by
  rcases h.published hpublished with hkeys | ⟨n, o, ho, _⟩
  · rcases hkeys k with heq | ⟨o, ho, _⟩
    · exact heq
    · rw [hidle] at ho
      cases ho
  · rw [hidle] at ho
    cases ho

/-- A key that a step leaves alone is as it was. -/
theorem PartOk.mono {part : Part V} (h : PartOk s k part) (htruth : t.truth k = s.truth k)
    (hcopy : t.copy k = s.copy k) (hwritten : t.written k = s.written k)
    (hclock : s.clock ≤ t.clock) (hcovered : s.Covered k → t.Covered k) : PartOk t k part := by
  cases part with
  | uncleared => trivial
  | cleared =>
    obtain ⟨hsince, hkey⟩ := h
    refine ⟨Nat.le_trans hsince hclock, ?_⟩
    rw [htruth, hcopy, hwritten]
    rcases hkey with heq | hcov | hold
    · exact Or.inl heq
    · exact Or.inr (Or.inl (hcovered hcov))
    · exact Or.inr (Or.inr hold)
  | read =>
    obtain ⟨hr, hthere, hmissing, hold⟩ := h
    refine ⟨Nat.le_trans hr hclock, ?_, ?_, ?_⟩
    · rw [htruth, hcopy]
      exact fun h => (hthere h).imp_right hcovered
    · rw [htruth, hcopy]
      exact fun h => (hmissing h).imp_right hcovered
    · rw [htruth, hwritten]
      exact hold
  | copied =>
    unfold PartOk
    rw [htruth, hcopy]
    exact h.imp_right hcovered

theorem PartOk.of_written {part : Part V} (h : PartOk s k part) (hclock : s.clock ≤ t.clock)
    (hwritten : t.written k = s.clock) (hcovered : t.Covered k) : PartOk t k part := by
  cases part with
  | uncleared => trivial
  | cleared => exact ⟨Nat.le_trans h.1 hclock, Or.inr (Or.inl hcovered)⟩
  | read =>
    refine ⟨Nat.le_trans h.1 hclock, fun _ => Or.inr hcovered, fun _ => Or.inr hcovered, ?_⟩
    intro hlt
    rw [hwritten] at hlt
    exact absurd h.1 (Nat.not_le_of_lt hlt)
  | copied => exact Or.inr hcovered

section SetOp

variable {n : Nat} {o : Option (Op P K V)}

theorem ops_setOp_ne {m : Nat} (h : m ≠ n) : (s.setOp n o).ops m = s.ops m := by
  simp only [State.setOp, update_of_ne h]

theorem ops_setOp_self : (s.setOp n o).ops n = o := by
  simp only [State.setOp, update_self]

theorem covered_setOp (h : s.Covered k)
    (hn : s.written k = n → ∃ o', o = some o' ∧ (settle o'.rest k).isSome = true) :
    (s.setOp n o).Covered k := by
  obtain ⟨o₁, ho₁, hrest⟩ := h
  by_cases heq : s.written k = n
  · obtain ⟨o', ho', hrest'⟩ := hn heq
    refine ⟨o', ?_, hrest'⟩
    change (s.setOp n o).ops (s.written k) = _
    rw [heq, ops_setOp_self, ho']
  · refine ⟨o₁, ?_, hrest⟩
    change (s.setOp n o).ops (s.written k) = _
    rw [ops_setOp_ne heq, ho₁]

theorem opsOk_setOp (h : OpsOk s) (hn : n < s.clock)
    (hwithdraws : ∀ o', o = some o' → o'.withdraws = true → o'.rest = [])
    (hsettles : ∀ o' k v, o = some o' → s.written k = n → settle o'.rest k = some v →
      v = s.truth k) :
    OpsOk (s.setOp n o) := by
  constructor
  · exact h.written_lt
  · intro m o' ho'
    by_cases heq : m = n
    · exact heq ▸ hn
    · exact h.ops_lt m o' (by rwa [ops_setOp_ne heq] at ho')
  · intro m o' ho'
    by_cases heq : m = n
    · rw [heq, ops_setOp_self] at ho'
      exact hwithdraws o' ho'
    · rw [ops_setOp_ne heq] at ho'
      exact h.withdraws m o' ho'
  · intro k o' v ho' hv
    change (s.setOp n o).ops (s.written k) = some o' at ho'
    by_cases heq : s.written k = n
    · rw [heq, ops_setOp_self] at ho'
      exact hsettles o' k v ho' heq hv
    · rw [ops_setOp_ne heq] at ho'
      exact h.settles k o' v ho' hv

end SetOp

/-- A step of an operation: fills are well when their keys are and no operation is newly
bumped under their generation. -/
theorem fillsOk_of_ops (h : FillsOk s) (hfills : t.fills = s.fills)
    (hpublished : t.published = true → s.published = true)
    (hgeneration : ∀ p, s.generation p ≤ t.generation p)
    (hbumped : ∀ n o, t.ops n = some o → o.bumped = true →
      (∃ o', s.ops n = some o' ∧ o'.process = o.process ∧ o'.bumped = true) ∨
        s.generation o.process < t.generation o.process)
    (hparts : ∀ p f, s.fills p = some f → s.Sound p f → t.Sound p f →
      ∀ k, PartOk s k (f.part k) → PartOk t k (f.part k)) :
    FillsOk t := by
  have hsame : ∀ p f, s.fills p = some f → t.generation p = f.generation →
      s.generation p = f.generation := by
    intro p f hf hgen
    have hle := h.generation_le p f hf
    have hle' := hgeneration p
    omega
  constructor
  · rw [hfills]
    exact h.single
  · intro p f hf
    rw [hfills] at hf
    have hunpublished := h.unpublished p f hf
    by_contra htrue
    rw [hpublished (by simpa using htrue)] at hunpublished
    cases hunpublished
  · intro p f hf
    rw [hfills] at hf
    exact Nat.le_trans (h.generation_le p f hf) (hgeneration p)
  · rw [hfills]
    exact h.checked_copied
  · intro p f n o hf hchecked hgen ho hprocess hb
    rw [hfills] at hf
    rcases hbumped n o ho hb with ⟨o', ho', hprocess', hb'⟩ | hlt
    · exact h.bumped_before p f n o' hf hchecked (hsame p f hf hgen) ho'
        (hprocess'.trans hprocess) hb'
    · have hold := hsame p f hf hgen
      rw [hprocess, hold, hgen] at hlt
      omega
  · intro p f hf hsound
    rw [hfills] at hf
    have hsound' : s.Sound p f := hsound.imp_right (hsame p f hf)
    intro k
    exact hparts p f hf hsound' hsound k (h.parts p f hf hsound' k)

section OpSteps

variable {o : Op P K V} {rest : List (Change K V)} {n : Nat}

/-- **The truth is written.** -/
theorem inv_write {truth : K → Option V} (h : Inv s) (hbumped : o.bumped = false)
    (hwithdraws : o.withdraws = false)
    (hcovers : ∀ k, truth k ≠ s.truth k → (settle o.rest k).isSome = true)
    (hsettles : ∀ k v, settle o.rest k = some v → v = truth k) :
    Inv (({ s with
      truth := truth
      clock := s.clock + 1
      written := fun k => if (settle o.rest k).isSome then s.clock else s.written k
    } : State P K V).setOp s.clock (some o)) := by
  generalize ht : (({ s with
      truth := truth
      clock := s.clock + 1
      written := fun k => if (settle o.rest k).isSome then s.clock else s.written k
    } : State P K V).setOp s.clock (some o)) = t
  have htruth : t.truth = truth := by rw [← ht]; rfl
  have hcopy : t.copy = s.copy := by rw [← ht]; rfl
  have hclock : t.clock = s.clock + 1 := by rw [← ht]; rfl
  have hself : t.ops s.clock = some o := by rw [← ht]; exact ops_setOp_self
  have hother : ∀ n, n ≠ s.clock → t.ops n = s.ops n := by
    intro n hn
    rw [← ht]
    exact ops_setOp_ne hn
  have hwritten : ∀ k, (settle o.rest k).isSome = true → t.written k = s.clock := by
    intro k hk
    rw [← ht]
    exact if_pos hk
  have hkept : ∀ k, (settle o.rest k).isSome = false → t.written k = s.written k := by
    intro k hk
    rw [← ht]
    exact if_neg (by simp [hk])
  have hcovered : ∀ k, (settle o.rest k).isSome = true → t.Covered k := by
    intro k hk
    exact ⟨o, by rw [hwritten k hk]; exact hself, hk⟩
  have hstays : ∀ k, (settle o.rest k).isSome = false → s.Covered k → t.Covered k := by
    rintro k hk ⟨o', ho', hrest⟩
    have hne : s.written k ≠ s.clock := Nat.ne_of_lt (h.ops.written_lt k)
    exact ⟨o', by rw [hkept k hk, hother _ hne]; exact ho', hrest⟩
  have hsame : ∀ k, (settle o.rest k).isSome = false → t.truth k = s.truth k := by
    intro k hk
    by_contra hne
    rw [htruth] at hne
    rw [hcovers k hne] at hk
    cases hk
  have hparts : ∀ k part, PartOk s k part → PartOk t k part := by
    intro k part hpart
    have hle : s.clock ≤ t.clock := by omega
    cases hk : (settle o.rest k).isSome with
    | true => exact hpart.of_written hle (hwritten k hk) (hcovered k hk)
    | false =>
      exact hpart.mono (hsame k hk) (congrFun hcopy k) (hkept k hk) hle (hstays k hk)
  constructor
  · constructor
    · intro k
      cases hk : (settle o.rest k).isSome with
      | true => rw [hwritten k hk]; omega
      | false =>
        have := h.ops.written_lt k
        rw [hkept k hk]
        omega
    · intro n o' ho'
      by_cases hn : n = s.clock
      · omega
      · have := h.ops.ops_lt n o' (by rwa [hother n hn] at ho')
        omega
    · intro n o' ho' hw
      by_cases hn : n = s.clock
      · rw [hn, hself] at ho'
        cases ho'
        rw [hwithdraws] at hw
        cases hw
      · exact h.ops.withdraws n o' (by rwa [hother n hn] at ho') hw
    · intro k o' v ho' hv
      cases hk : (settle o.rest k).isSome with
      | true =>
        rw [hwritten k hk, hself] at ho'
        cases ho'
        rw [htruth]
        exact hsettles k v hv
      | false =>
        have hne : s.written k ≠ s.clock := Nat.ne_of_lt (h.ops.written_lt k)
        rw [hkept k hk, hother _ hne] at ho'
        rw [hsame k hk]
        exact h.ops.settles k o' v ho' hv
  · refine fillsOk_of_ops h.fills (by rw [← ht]; rfl) (by rw [← ht]; exact id)
      (by rw [← ht]; exact fun p => Nat.le_refl _) ?_ fun p f _ _ _ k => hparts k (f.part k)
    intro n o' ho' hb
    by_cases hn : n = s.clock
    · rw [hn, hself] at ho'
      cases ho'
      rw [hbumped] at hb
      cases hb
    · rw [hother n hn] at ho'
      exact Or.inl ⟨o', ho', rfl, hb⟩
  · intro hpublished
    have hold : s.published = true := by
      rw [← ht] at hpublished
      exact hpublished
    rcases h.published hold with hkeys | ⟨n, o', ho', hw⟩
    · left
      intro k
      exact hparts k .copied (hkeys k)
    · right
      have hn : n ≠ s.clock := Nat.ne_of_lt (h.ops.ops_lt n o' ho')
      exact ⟨n, o', by rw [hother n hn]; exact ho', hw⟩

theorem inv_of_op {n : Nat} {o : Op P K V} {o' : Option (Op P K V)} {copy : K → Option V}
    {generation : P → Nat} {published : Bool} (h : Inv s) (ho : s.ops n = some o)
    (ht : t = (({ s with
      copy := copy
      generation := generation
      published := published } : State P K V).setOp n o'))
    (hpublished : published = true → s.published = true)
    (hgeneration : ∀ p, s.generation p ≤ generation p)
    (hwithdraws : ∀ o₁, o' = some o₁ → o₁.withdraws = true → o₁.rest = [])
    (hsettles : ∀ o₁ k v, o' = some o₁ → settle o₁.rest k = some v → settle o.rest k = some v)
    (hbumped : ∀ o₁, o' = some o₁ → o₁.process = o.process ∧
      (o₁.bumped = true → o.bumped = true ∨ s.generation o.process < generation o.process))
    (hparts : ∀ p f, s.fills p = some f → s.Sound p f → t.Sound p f →
      ∀ k, PartOk s k (f.part k) → PartOk t k (f.part k))
    (hkeys : published = true →
      (∀ k, t.copy k = t.truth k ∨ t.Covered k) ∨ ∃ m o₁, t.ops m = some o₁ ∧ o₁.withdraws = true) :
    Inv t := by
  have hlt := h.ops.ops_lt n o ho
  have hops : OpsOk t := by
    rw [ht]
    refine opsOk_setOp (s := { s with
      copy := copy, generation := generation, published := published })
      ⟨h.ops.written_lt, h.ops.ops_lt, h.ops.withdraws, h.ops.settles⟩ hlt hwithdraws ?_
    intro o₁ k v ho₁ hn hv
    exact h.ops.settles k o v (by rw [hn]; exact ho) (hsettles o₁ k v ho₁ hv)
  refine ⟨hops, ?_, ?_⟩
  · refine fillsOk_of_ops h.fills (by rw [ht]; rfl) (by rw [ht]; exact hpublished)
      (by rw [ht]; exact hgeneration) ?_ hparts
    intro m o₁ ho₁ hb
    rw [ht] at ho₁
    by_cases hm : m = n
    · rw [hm, ops_setOp_self] at ho₁
      obtain ⟨hprocess, hb'⟩ := hbumped o₁ ho₁
      rcases hb' hb with hb' | hlt
      · exact Or.inl ⟨o, by rw [hm]; exact ho, hprocess.symm, hb'⟩
      · right
        rw [ht, hprocess]
        exact hlt
    · rw [ops_setOp_ne hm] at ho₁
      exact Or.inl ⟨o₁, ho₁, rfl, hb⟩
  · intro htrue
    rw [ht] at htrue
    exact hkeys htrue

theorem next_eq_some {o o₁ : Op P K V} (h : o.next rest = some o₁) :
    o₁ = { o with rest := rest } := by
  unfold Op.next at h
  split at h
  · cases h
  · exact (some.inj h).symm

theorem next_of_settle
    (h : (settle rest k).isSome = true) : o.next rest = some { o with rest := rest } := by
  cases rest with
  | nil => cases h
  | cons => rfl

/-- **A write of the copy.** -/
theorem inv_apply {c : Change K V} (h : Inv s) (ho : s.ops n = some o) (hrest : o.rest = c :: rest)
    (hcurrent : ∀ k, (c k).isSome = true → s.Covered k)
    (hremoves : ∀ k, c k = some none → o.bumped = true ∧
      ∀ p f, s.fills p = some f → p ≠ o.process → ∀ r v, f.part k = .read r v → n < r) :
    Inv (({ s with copy := c.apply s.copy } : State P K V).setOp n (o.next rest)) := by
  generalize ht : (({ s with copy := c.apply s.copy } : State P K V).setOp n (o.next rest)) = t
  have hwithdraws : o.withdraws = false := by
    by_contra hw
    rw [h.ops.withdraws n o ho (by simpa using hw)] at hrest
    cases hrest
  -- a key of this write stays covered, or has the truth now
  have hkey : ∀ k, (c k).isSome = true →
      t.Covered k ∨ (s.written k = n ∧ c k = some (s.truth k)) := by
    intro k hk
    obtain ⟨o', ho', hsome⟩ := hcurrent k hk
    by_cases hn : s.written k = n
    · rw [hn, ho] at ho'
      cases ho'
      cases hmore : settle rest k with
      | some =>
        left
        rw [← ht]
        refine covered_setOp (s := { s with copy := c.apply s.copy })
          ⟨o, by rw [← ho, ← hn], hsome⟩ fun _ => ?_
        have hsome' : (settle rest k).isSome = true := by rw [hmore]; rfl
        exact ⟨_, next_of_settle hsome', hsome'⟩
      | none =>
        right
        refine ⟨hn, ?_⟩
        obtain ⟨w, hw⟩ := isSome_iff_exists.mp hk
        have hsettle : settle o.rest k = some w := by
          rw [hrest, settle, hmore, hw]
          rfl
        rw [hw, h.ops.settles k o w (by rw [hn]; exact ho) hsettle]
    · left
      rw [← ht]
      exact covered_setOp (s := { s with copy := c.apply s.copy }) ⟨o', ho', hsome⟩
        fun h => absurd h hn
  have hcovered : ∀ k, c k = none → s.Covered k → t.Covered k := by
    intro k hk hcov
    rw [← ht]
    refine covered_setOp (s := { s with copy := c.apply s.copy }) hcov ?_
    intro hn
    change s.written k = n at hn
    obtain ⟨o', ho', hsome⟩ := hcov
    rw [hn, ho] at ho'
    cases ho'
    have hsome' : (settle rest k).isSome = true := by
      rw [hrest, settle, hk, or_none] at hsome
      exact hsome
    exact ⟨_, next_of_settle hsome', hsome'⟩
  have hcopy : ∀ k, t.copy k = (c k).getD (s.copy k) := by
    intro k
    rw [← ht]
    rfl
  have htruth : t.truth = s.truth := by rw [← ht]; rfl
  have hwritten : t.written = s.written := by rw [← ht]; rfl
  have hclock : t.clock = s.clock := by rw [← ht]; rfl
  have hparts : ∀ p f, s.fills p = some f → s.Sound p f → ∀ k,
      PartOk s k (f.part k) → PartOk t k (f.part k) := by
    intro p f hf hsound k hpart
    cases hc : c k with
    | none =>
      refine hpart.mono (congrFun htruth k) ?_ (congrFun hwritten k) (Nat.le_of_eq hclock.symm)
        (hcovered k hc)
      rw [hcopy, hc]
      rfl
    | some =>
      rcases hkey k (by rw [hc]; rfl) with hcov | ⟨hn, hvalue⟩
      · cases hp : f.part k with
        | uncleared => trivial
        | cleared =>
          rw [hp] at hpart
          exact ⟨hclock ▸ hpart.1, Or.inr (Or.inl hcov)⟩
        | read =>
          rw [hp] at hpart
          refine ⟨hclock ▸ hpart.1, fun _ => Or.inr hcov, fun _ => Or.inr hcov, ?_⟩
          rw [htruth, hwritten]
          exact hpart.2.2.2
        | copied => exact Or.inr hcov
      · have heq : t.copy k = t.truth k := by
          rw [hcopy, hvalue, htruth]
          rfl
        cases hp : f.part k with
        | uncleared => trivial
        | cleared =>
          rw [hp] at hpart
          exact ⟨hclock ▸ hpart.1, Or.inl heq⟩
        | read r value =>
          rw [hp] at hpart
          obtain ⟨hr, _, _, hold⟩ := hpart
          refine ⟨hclock ▸ hr, fun _ => Or.inl heq, ?_, by rwa [htruth, hwritten]⟩
          intro hnone
          left
          have hremoved : s.truth k = none := by rw [← htruth, ← heq]; exact hnone
          rw [hremoved] at hvalue
          obtain ⟨hb, hothers⟩ := hremoves k hvalue
          have hlt : n < r := by
            by_cases hprocess : p = o.process
            · rcases hsound with hchecked | hgen
              · have := h.fills.checked_copied p f hf hchecked k
                rw [hp] at this
                cases this
              · cases hchecked : f.checked with
                | true =>
                  have := h.fills.checked_copied p f hf hchecked k
                  rw [hp] at this
                  cases this
                | false =>
                  exact h.fills.bumped_before p f n o hf hchecked hgen ho hprocess.symm hb
                    k r value hp
            · exact hothers p f hf hprocess r value hp
          rcases hold (hn ▸ hlt) with hvalue | hvalue
          · rw [hvalue, htruth]
          · rw [hvalue, htruth, hremoved]
        | copied => exact Or.inl heq
  refine inv_of_op h ho ht.symm id (fun p => Nat.le_refl _) ?_ ?_ ?_
    (fun p f hf hsound _ k => hparts p f hf hsound k) ?_
  · intro o₁ ho₁ hw
    rw [next_eq_some ho₁] at hw
    rw [hwithdraws] at hw
    cases hw
  · intro o₁ k v ho₁ hv
    rw [next_eq_some ho₁] at hv
    rw [hrest, settle, hv]
    rfl
  · intro o₁ ho₁
    rw [next_eq_some ho₁]
    exact ⟨rfl, Or.inl⟩
  · intro hpublished
    rcases h.published hpublished with hkeys | ⟨m, o', ho', hw⟩
    · left
      intro k
      cases hc : c k with
      | none =>
        rw [hcopy, hc, htruth]
        exact (hkeys k).imp_right (hcovered k hc)
      | some =>
        rcases hkey k (by rw [hc]; rfl) with hcov | ⟨_, hvalue⟩
        · exact Or.inr hcov
        · left
          rw [hcopy, hvalue, htruth]
          rfl
    · right
      have hm : m ≠ n := by
        rintro rfl
        rw [ho] at ho'
        cases ho'
        rw [hwithdraws] at hw
        cases hw
      exact ⟨m, o', by rw [← ht, ops_setOp_ne hm]; exact ho', hw⟩

variable [DecidableEq P]

theorem generation_bump_le (s : State P K V) (p q : P) :
    s.generation q ≤ (s.bump p).generation q := by
  by_cases hq : q = p
  · subst hq
    simp [State.bump]
  · simp [State.bump, update_of_ne hq]

theorem generation_bump_self (s : State P K V) (p : P) :
    s.generation p < (s.bump p).generation p := by
  simp [State.bump]

/-- **An operation moves the generation of its process.** -/
theorem inv_bump (h : Inv s) (ho : s.ops n = some o) :
    Inv ((s.bump o.process).setOp n (some { o with bumped := true })) := by
  have hcovered : ∀ k, s.Covered k →
      ((s.bump o.process).setOp n (some { o with bumped := true })).Covered k := by
    intro k hk
    refine covered_setOp (s := s.bump o.process) hk ?_
    intro hn
    change s.written k = n at hn
    obtain ⟨o', ho', hrest⟩ := hk
    rw [hn, ho] at ho'
    cases ho'
    exact ⟨_, rfl, hrest⟩
  refine inv_of_op h ho rfl id (generation_bump_le s o.process) ?_ ?_ ?_ ?_ ?_
  · rintro o₁ ⟨⟩ hw
    exact h.ops.withdraws n o ho hw
  · rintro o₁ k v ⟨⟩ hv
    exact hv
  · rintro o₁ ⟨⟩
    exact ⟨rfl, fun _ => Or.inr (generation_bump_self s o.process)⟩
  · intro p f _ _ _ k hpart
    exact hpart.mono rfl rfl rfl (Nat.le_refl _) (hcovered k)
  · intro hpublished
    rcases h.published hpublished with hkeys | ⟨m, o', ho', hw⟩
    · exact Or.inl fun k => (hkeys k).imp_right (hcovered k)
    · right
      by_cases hm : m = n
      · subst hm
        rw [ho] at ho'
        cases ho'
        exact ⟨m, _, ops_setOp_self, hw⟩
      · exact ⟨m, o', by rw [ops_setOp_ne hm]; exact ho', hw⟩

/-- **A write of the copy fails.** -/
theorem inv_fail {copy : K → Option V} (h : Inv s) (ho : s.ops n = some o)
    (hcopy : ∀ k, (settle o.rest k).isSome = false → copy k = s.copy k)
    (hfills : ∀ p f, s.fills p = some f → (p = o.process ∧ f.checked = false) ∨
      ∀ k, (settle o.rest k).isSome = true → f.part k = .uncleared) :
    Inv ((({ s with copy := copy } : State P K V).bump o.process).setOp n
      (some { o with rest := [], withdraws := true })) := by
  generalize ht : ((({ s with copy := copy } : State P K V).bump o.process).setOp n
    (some { o with rest := [], withdraws := true })) = t
  have hself : t.ops n = some { o with rest := [], withdraws := true } := by
    rw [← ht]
    exact ops_setOp_self
  have hlt := generation_bump_self s o.process
  refine inv_of_op h ho ht.symm id (generation_bump_le s o.process) ?_ ?_ ?_ ?_ ?_
  · rintro o₁ ⟨⟩ _
    rfl
  · rintro o₁ k v ⟨⟩ hv
    cases hv
  · rintro o₁ ⟨⟩
    exact ⟨rfl, Or.inl⟩
  · intro p f hf _ hsound k hpart
    rcases hfills p f hf with ⟨rfl, hchecked⟩ | huncleared
    · -- the fill can tell
      rcases hsound with htrue | hgen
      · rw [hchecked] at htrue
        cases htrue
      · have hle := h.fills.generation_le _ f hf
        have hgen' : (s.bump o.process).generation o.process = f.generation := by
          rw [← hgen, ← ht]
          rfl
        omega
    · cases hk : (settle o.rest k).isSome with
      | true =>
        rw [huncleared k hk]
        trivial
      | false =>
        refine hpart.mono (by rw [← ht]; rfl) ?_ (by rw [← ht]; rfl)
          (by rw [← ht]; exact Nat.le_refl _) ?_
        · rw [← ht]
          exact hcopy k hk
        · intro hcov
          rw [← ht]
          refine covered_setOp (s := ({ s with copy := copy } : State P K V).bump o.process) hcov ?_
          intro hn
          change s.written k = n at hn
          obtain ⟨o', ho', hsome⟩ := hcov
          rw [hn, ho] at ho'
          cases ho'
          rw [hk] at hsome
          cases hsome
  · intro _
    exact Or.inr ⟨n, _, hself, rfl⟩

/-- **An operation that has not written withdraws.** -/
theorem inv_withdraw {p : P} (h : Inv s) :
    Inv ((({ s with clock := s.clock + 1 } : State P K V).bump p).setOp s.clock
      (some ⟨p, false, [], true⟩)) := by
  generalize ht : ((({ s with clock := s.clock + 1 } : State P K V).bump p).setOp s.clock
    (some ⟨p, false, [], true⟩)) = t
  have hself : t.ops s.clock = some ⟨p, false, [], true⟩ := by
    rw [← ht]
    exact ops_setOp_self
  have hclock : t.clock = s.clock + 1 := by rw [← ht]; rfl
  have hcovered : ∀ k, s.Covered k → t.Covered k := by
    rintro k hcov
    have hne : s.written k ≠ s.clock := Nat.ne_of_lt (h.ops.written_lt k)
    rw [← ht]
    exact covered_setOp (s := ({ s with clock := s.clock + 1 } : State P K V).bump p) hcov
      fun hn => absurd hn hne
  have hparts : ∀ k part, PartOk s k part → PartOk t k part := by
    intro k part hpart
    exact hpart.mono (by rw [← ht]; rfl) (by rw [← ht]; rfl) (by rw [← ht]; rfl)
      (by omega) (hcovered k)
  refine ⟨?_, ?_, ?_⟩
  · rw [← ht]
    refine opsOk_setOp (s := ({ s with clock := s.clock + 1 } : State P K V).bump p)
      ⟨?_, ?_, h.ops.withdraws, h.ops.settles⟩ (Nat.lt_succ_self s.clock) ?_ ?_
    · exact fun k => Nat.lt_succ_of_lt (h.ops.written_lt k)
    · exact fun n o ho => Nat.lt_succ_of_lt (h.ops.ops_lt n o ho)
    · rintro o' ⟨⟩ _
      rfl
    · rintro o' k v ⟨⟩ _ hv
      cases hv
  · refine fillsOk_of_ops h.fills (by rw [← ht]; rfl) (by rw [← ht]; exact id)
      (by rw [← ht]; exact generation_bump_le s p) ?_ fun q f _ _ _ k => hparts k (f.part k)
    intro n o' ho' hb
    by_cases hn : n = s.clock
    · rw [hn, hself] at ho'
      cases ho'
      cases hb
    · rw [← ht, ops_setOp_ne hn] at ho'
      exact Or.inl ⟨o', ho', rfl, hb⟩
  · intro _
    exact Or.inr ⟨s.clock, _, hself, rfl⟩

omit [DecidableEq P] in
/-- **The copy is unpublished**, or could not be and was not published. -/
theorem inv_unpublish (h : Inv s) (ho : s.ops n = some o) (hwithdraws : o.withdraws = true) :
    Inv (({ s with published := false } : State P K V).setOp n none) := by
  have hrest := h.ops.withdraws n o ho hwithdraws
  refine inv_of_op h ho rfl (fun h => by cases h) (fun p => Nat.le_refl _) ?_ ?_ ?_ ?_ ?_
  · rintro o₁ ⟨⟩
  · rintro o₁ k v ⟨⟩
  · rintro o₁ ⟨⟩
  · intro p f _ _ _ k hpart
    refine hpart.mono rfl rfl rfl (Nat.le_refl _) ?_
    intro hcov
    refine covered_setOp (s := { s with published := false }) hcov ?_
    intro hn
    change s.written k = n at hn
    obtain ⟨o', ho', hsome⟩ := hcov
    rw [hn, ho] at ho'
    cases ho'
    rw [hrest] at hsome
    cases hsome
  · intro hpublished
    cases hpublished

end OpSteps

section FillSteps

variable [DecidableEq P] {p : P} {f : Fill K V}

theorem fills_setFill_self {g : Option (Fill K V)} : (s.setFill p g).fills p = g := by
  simp only [State.setFill, update_self]

theorem fills_setFill_ne {q : P} {g : Option (Fill K V)} (h : q ≠ p) :
    (s.setFill p g).fills q = s.fills q := by
  simp only [State.setFill, update_of_ne h]

theorem inv_of_fill {f' : Option (Fill K V)} {copy : K → Option V} {published : Bool} (h : Inv s)
    (hothers : ∀ q, q ≠ p → s.fills q = none)
    (ht : t = ({ s with copy := copy, published := published } : State P K V).setFill p f')
    (hunpublished : f' ≠ none → published = false)
    (hgeneration : ∀ g, f' = some g → g.generation ≤ s.generation p)
    (hchecked : ∀ g, f' = some g → g.checked = true → ∀ k, g.part k = .copied)
    (hbefore : ∀ g, f' = some g → g.checked = false → s.generation p = g.generation →
      ∀ n o, s.ops n = some o → o.process = p → o.bumped = true →
      ∀ k r v, g.part k = .read r v → n < r)
    (hparts : ∀ g, f' = some g → s.Sound p g → ∀ k, PartOk t k (g.part k))
    (hkeys : published = true → (∀ k, t.copy k = t.truth k ∨ t.Covered k) ∨
      ∃ n o, t.ops n = some o ∧ o.withdraws = true) :
    Inv t := by
  have hself : t.fills p = f' := by
    rw [ht]
    exact fills_setFill_self
  have honly : ∀ q g, t.fills q = some g → q = p ∧ f' = some g := by
    intro q g hg
    by_cases hq : q = p
    · rw [hq, hself] at hg
      exact ⟨hq, hg⟩
    · rw [ht, fills_setFill_ne hq] at hg
      change s.fills q = some g at hg
      rw [hothers q hq] at hg
      cases hg
  have hpub : t.published = published := by rw [ht]; rfl
  have hgen : t.generation = s.generation := by rw [ht]; rfl
  have hops : t.ops = s.ops := by rw [ht]; rfl
  refine ⟨?_, ?_, fun htrue => hkeys (hpub ▸ htrue)⟩
  · rw [ht]
    exact ⟨h.ops.written_lt, h.ops.ops_lt, h.ops.withdraws, h.ops.settles⟩
  · constructor
    · intro q q' g g' hg hg'
      rw [(honly q g hg).1, (honly q' g' hg').1]
    · intro q g hg
      rw [hpub]
      refine hunpublished ?_
      rw [(honly q g hg).2]
      exact some_ne_none g
    · intro q g hg
      obtain ⟨rfl, hf'⟩ := honly q g hg
      rw [hgen]
      exact hgeneration g hf'
    · intro q g hg
      exact hchecked g (honly q g hg).2
    · intro q g n o hg hc hgen' ho hprocess hb k r v
      obtain ⟨rfl, hf'⟩ := honly q g hg
      rw [hgen] at hgen'
      rw [hops] at ho
      exact hbefore g hf' hc hgen' n o ho hprocess hb k r v
    · intro q g hg hsound k
      obtain ⟨rfl, hf'⟩ := honly q g hg
      refine hparts g hf' ?_ k
      unfold State.Sound at hsound ⊢
      rwa [hgen] at hsound

omit [DecidableEq P] in
theorem others_of_fill (h : Inv s) (hf : s.fills p = some f) {q : P} (hq : q ≠ p) :
    s.fills q = none := by
  cases hg : s.fills q with
  | none => rfl
  | some g => exact absurd (h.fills.single q p g f hg hf) hq

/-- **A fill begins.** -/
theorem inv_begin (h : Inv s) (hfills : ∀ q, s.fills q = none) (hpublished : s.published = false) :
    Inv (s.setFill p (some ⟨s.generation p, false, fun _ => .uncleared⟩)) := by
  refine inv_of_fill h (fun q _ => hfills q) rfl (fun _ => hpublished) ?_ ?_ ?_ ?_ ?_
  · rintro g ⟨⟩
    exact Nat.le_refl _
  · rintro g ⟨⟩ hchecked
    cases hchecked
  · rintro g ⟨⟩ _ _ n o _ _ _ k r v hread
    cases hread
  · rintro g ⟨⟩ _ _
    trivial
  · intro htrue
    rw [hpublished] at htrue
    cases htrue

variable {region : K → Bool}

section

variable (h : Inv s)
include h

section

variable (hf : s.fills p = some f)
include hf

section

variable (hchecked : f.checked = false)
include hchecked

/-- **A fill goes on** with some of the keys. -/
theorem inv_goesOn {copy : K → Option V} {part : K → Part V}
    (hcopy : ∀ k, region k = false → copy k = s.copy k)
    (hread : ∀ k, region k = true → ∀ r v, part k = .read r v → r = s.clock)
    (hpart : ∀ k, region k = true → PartOk s k (f.part k) →
      PartOk ({ s with copy := copy } : State P K V) k (part k)) :
    Inv (({ s with copy := copy } : State P K V).setFill p (some { f with
      part := fun k => if region k then part k else f.part k })) := by
  have hpublished := h.fills.unpublished p f hf
  refine inv_of_fill h (fun q hq => others_of_fill h hf hq) rfl (fun _ => hpublished) ?_ ?_ ?_ ?_ ?_
  · rintro g ⟨⟩
    exact h.fills.generation_le p f hf
  · rintro g ⟨⟩ htrue
    rw [hchecked] at htrue
    cases htrue
  · rintro g ⟨⟩ _ hgen n o ho hprocess hb k r v hreads
    cases hk : region k with
    | true =>
      simp only [hk, if_true] at hreads
      rw [hread k hk r v hreads]
      exact h.ops.ops_lt n o ho
    | false =>
      simp only [hk, Bool.false_eq_true, if_false] at hreads
      exact h.fills.bumped_before p f n o hf hchecked hgen ho hprocess hb k r v hreads
  · rintro g ⟨⟩ hsound k
    have hbefore := h.fills.parts p f hf hsound k
    cases hk : region k with
    | true =>
      simp only [hk, if_true]
      exact (hpart k hk hbefore).mono rfl rfl rfl (Nat.le_refl _) id
    | false =>
      simp only [hk, Bool.false_eq_true, if_false]
      exact hbefore.mono rfl (hcopy k hk) rfl (Nat.le_refl _) id
  · intro htrue
    rw [hpublished] at htrue
    cases htrue

/-- **A fill clears some of the copy.** -/
theorem inv_clear :
    Inv (({ s with copy := fun k => if region k then none else s.copy k
      } : State P K V).setFill p (some { f with
        part := fun k => if region k then .cleared s.clock else f.part k })) := by
  refine inv_goesOn h hf hchecked (fun k hk => by rw [hk]; rfl) (fun _ _ _ _ hread => nomatch hread)
    fun k hk _ => ⟨Nat.le_refl _, Or.inr (Or.inr ⟨?_, h.ops.written_lt k⟩)⟩
  change (if region k then none else s.copy k) = none
  rw [hk, if_pos rfl]

/-- **A fill reads some of the truth.** -/
theorem inv_read {value : K → Option V}
    (hread : ∀ k, region k = true → ∃ since, f.part k = .cleared since ∧
      (value k = s.truth k ∨ value k = none) ∧
      (value k = none → s.truth k = none ∨ since ≤ s.written k)) :
    Inv (s.setFill p (some { f with
      part := fun k => if region k then .read s.clock (value k) else f.part k })) := by
  refine inv_goesOn h hf hchecked (fun _ _ => rfl) ?_ fun k hk hpart => ?_
  · rintro k - r v ⟨⟩
    rfl
  obtain ⟨since, hcleared, hvalue, hmissing⟩ := hread k hk
  rw [hcleared] at hpart
  obtain ⟨_, hkey⟩ := hpart
  refine ⟨Nat.le_refl _, ?_, ?_, fun _ => hvalue⟩
  · intro hthere
    rcases hkey with heq | hcov | ⟨hnone, _⟩
    · exact Or.inl heq
    · exact Or.inr hcov
    · exact absurd hnone hthere
  · intro hnone
    change s.copy k = none at hnone
    change value k = s.truth k ∨ s.Covered k
    rcases hvalue with hvalue | hvalue
    · exact Or.inl hvalue
    · rcases hkey with heq | hcov | ⟨_, hold⟩
      · left
        rw [hvalue, ← heq, hnone]
      · exact Or.inr hcov
      · rcases hmissing hvalue with htruth | hnew
        · exact Or.inl (hvalue.trans htruth.symm)
        · exact absurd hold (Nat.not_lt_of_le hnew)

/-- **A fill copies what it read** where the copy has nothing. -/
theorem inv_copy (hread : ∀ k, region k = true → ∃ r v, f.part k = .read r v) :
    Inv (({ s with
        copy := fun k => if region k then (s.copy k).or (f.part k).value else s.copy k
      } : State P K V).setFill p (some { f with
        part := fun k => if region k then .copied else f.part k })) := by
  refine inv_goesOn h hf hchecked (fun k hk => by rw [hk]; rfl) (fun _ _ _ _ hread => nomatch hread)
    fun k hk hpart => ?_
  obtain ⟨r, v, hvalue⟩ := hread k hk
  rw [hvalue] at hpart
  obtain ⟨_, hthere, hmissing, _⟩ := hpart
  change (if region k then (s.copy k).or (f.part k).value else s.copy k) = s.truth k ∨ s.Covered k
  rw [hk, if_pos rfl, hvalue]
  cases hcopy : s.copy k with
  | none => exact hmissing hcopy
  | some w =>
    have hsome := hthere (by rw [hcopy]; exact some_ne_none w)
    rw [hcopy] at hsome
    exact hsome

end

/-- **A fill finds its generation unchanged.** -/
theorem inv_check (hcopied : ∀ k, f.part k = .copied)
    (hgeneration : s.generation p = f.generation) :
    Inv (s.setFill p (some { f with checked := true })) := by
  have hpublished := h.fills.unpublished p f hf
  refine inv_of_fill h (fun q hq => others_of_fill h hf hq) rfl (fun _ => hpublished) ?_ ?_ ?_ ?_ ?_
  · rintro g ⟨⟩
    exact h.fills.generation_le p f hf
  · rintro g ⟨⟩ _
    exact hcopied
  · rintro g ⟨⟩ hfalse
    cases hfalse
  · rintro g ⟨⟩ _ k
    exact (h.fills.parts p f hf (Or.inr hgeneration) k).mono rfl rfl rfl (Nat.le_refl _) id
  · intro htrue
    rw [hpublished] at htrue
    cases htrue

/-- **A fill publishes the copy.** -/
theorem inv_publish (hchecked : f.checked = true) :
    Inv (({ s with published := true } : State P K V).setFill p none) := by
  refine inv_of_fill h (fun q hq => others_of_fill h hf hq) rfl (fun hne => absurd rfl hne) ?_ ?_
    ?_ ?_ ?_
  · rintro g ⟨⟩
  · rintro g ⟨⟩
  · rintro g ⟨⟩
  · rintro g ⟨⟩
  · intro _
    left
    intro k
    have hpart := h.fills.parts p f hf (Or.inl hchecked) k
    rw [h.fills.checked_copied p f hf hchecked k] at hpart
    exact hpart

end

/-- **A fill ends without publishing.** -/
theorem inv_abort : Inv (s.setFill p none) := by
  have hkept : ∀ q g, (s.setFill p none).fills q = some g → s.fills q = some g := by
    intro q g hg
    by_cases hq : q = p
    · rw [hq, fills_setFill_self] at hg
      cases hg
    · rwa [fills_setFill_ne hq] at hg
  refine ⟨⟨h.ops.written_lt, h.ops.ops_lt, h.ops.withdraws, h.ops.settles⟩, ?_, h.published⟩
  constructor
  · exact fun q q' g g' hg hg' => h.fills.single q q' g g' (hkept q g hg) (hkept q' g' hg')
  · exact fun q g hg => h.fills.unpublished q g (hkept q g hg)
  · exact fun q g hg => h.fills.generation_le q g (hkept q g hg)
  · exact fun q g hg => h.fills.checked_copied q g (hkept q g hg)
  · exact fun q g n o hg => h.fills.bumped_before q g n o (hkept q g hg)
  · intro q g hg hsound k
    exact (h.fills.parts q g (hkept q g hg) hsound k).mono rfl rfl rfl (Nat.le_refl _) id

end

end FillSteps

/-- **The steps keep the invariant.** -/
theorem Step.inv [DecidableEq P] (h : Inv s) (hstep : Step s t) : Inv t := by
  cases hstep with
  | write _ _ hbumped hwithdraws hcovers hsettles =>
    exact inv_write h hbumped hwithdraws hcovers hsettles
  | bump _ _ ho => exact inv_bump h ho
  | apply _ _ _ _ ho hrest hcurrent hremoves => exact inv_apply h ho hrest hcurrent hremoves
  | fail _ _ _ ho hcopy hfills => exact inv_fail h ho hcopy hfills
  | withdraw => exact inv_withdraw h
  | unpublish _ _ ho hwithdraws => exact inv_unpublish h ho hwithdraws
  | unpublishFails _ _ ho hwithdraws hpublished =>
    have hinv := inv_unpublish h ho hwithdraws
    rwa [← hpublished] at hinv
  | begin _ hfills hpublished => exact inv_begin h hfills hpublished
  | clear _ _ _ hf hchecked => exact inv_clear h hf hchecked
  | read _ _ _ _ hf hchecked hread => exact inv_read h hf hchecked hread
  | copy _ _ _ hf hchecked hread => exact inv_copy h hf hchecked hread
  | check _ _ hf hcopied hgeneration => exact inv_check h hf hcopied hgeneration
  | publish _ _ hf hchecked => exact inv_publish h hf hchecked
  | abort => exact inv_abort h

theorem inv_start (hwritten : ∀ k, s.written k < s.clock) (hops : ∀ n, s.ops n = none)
    (hfills : ∀ p, s.fills p = none) (hpublished : s.published = false) : Inv s := by
  have hnoop : ∀ n o, s.ops n ≠ some o := by
    intro n o ho
    rw [hops] at ho
    cases ho
  have hnofill : ∀ p f, s.fills p ≠ some f := by
    intro p f hf
    rw [hfills] at hf
    cases hf
  refine ⟨⟨hwritten, ?_, ?_, ?_⟩, ⟨?_, ?_, ?_, ?_, ?_, ?_⟩, ?_⟩
  · exact fun n o ho => absurd ho (hnoop n o)
  · exact fun n o ho => absurd ho (hnoop n o)
  · exact fun k o v ho => absurd ho (hnoop _ o)
  · exact fun p q f g hf => absurd hf (hnofill p f)
  · exact fun p f hf => absurd hf (hnofill p f)
  · exact fun p f hf => absurd hf (hnofill p f)
  · exact fun p f hf => absurd hf (hnofill p f)
  · exact fun p f n o hf => absurd hf (hnofill p f)
  · exact fun p f hf => absurd hf (hnofill p f)
  · intro htrue
    rw [hpublished] at htrue
    cases htrue

end Invariant

end WriteThrough
end StudioWeb
