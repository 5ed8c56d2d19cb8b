import Mathlib.Data.List.Nodup
import Mathlib.Data.List.Perm.Basic

/-!
# The first of each kind

What a loop keeps of a list when it inserts a key of every item into a set and drops
the items whose key is there.  `countBy` counts the items of each kind, a kind being told
by a test of two items.
-/

namespace StudioWeb

open List

universe u v w

variable {α : Type u} {β : Type v} {γ : Type w} [DecidableEq γ]

/-- The items whose key is not among those seen. -/
def distinctFrom (key : α → γ) : List γ → List α → List α
  | _, [] => []
  | seen, x :: rest =>
    if key x ∈ seen then
      distinctFrom key seen rest
    else
      x :: distinctFrom key (key x :: seen) rest

def distinctBy (key : α → γ) (xs : List α) : List α := distinctFrom key [] xs

theorem mem_of_mem_distinctFrom {key : α → γ} {x : α} :
    ∀ {seen : List γ} {xs : List α}, x ∈ distinctFrom key seen xs → x ∈ xs
  | _, [], h => h
  | seen, y :: rest, h => by
    unfold distinctFrom at h
    split at h
    · exact mem_cons_of_mem _ (mem_of_mem_distinctFrom h)
    · rcases mem_cons.mp h with rfl | h
      · exact mem_cons_self
      · exact mem_cons_of_mem _ (mem_of_mem_distinctFrom h)

theorem mem_map_distinctFrom {key : α → γ} {k : γ} :
    ∀ {seen : List γ} {xs : List α},
      k ∈ (distinctFrom key seen xs).map key ↔ k ∈ xs.map key ∧ k ∉ seen
  | _, [] => by simp [distinctFrom]
  | seen, x :: rest => by
    unfold distinctFrom
    by_cases hx : key x ∈ seen
    · rw [if_pos hx, mem_map_distinctFrom, map_cons, mem_cons]
      constructor
      · rintro ⟨hk, hseen⟩
        exact ⟨Or.inr hk, hseen⟩
      · rintro ⟨rfl | hk, hseen⟩
        · exact absurd hx hseen
        · exact ⟨hk, hseen⟩
    · rw [if_neg hx, map_cons, mem_cons, mem_map_distinctFrom, map_cons,
        mem_cons, mem_cons]
      by_cases hk : k = key x
      · subst hk
        simp [hx]
      · simp [hk]

theorem nodup_map_distinctFrom {key : α → γ} :
    ∀ {seen : List γ} {xs : List α}, ((distinctFrom key seen xs).map key).Nodup
  | _, [] => nodup_nil
  | seen, x :: rest => by
    unfold distinctFrom
    split
    · exact nodup_map_distinctFrom
    · rw [map_cons, nodup_cons]
      refine ⟨?_, nodup_map_distinctFrom⟩
      intro hmem
      exact (mem_map_distinctFrom.mp hmem).2 mem_cons_self

variable {key : α → γ} {xs : List α}

theorem mem_of_mem_distinctBy {x : α} (h : x ∈ distinctBy key xs) : x ∈ xs :=
  mem_of_mem_distinctFrom h

/-- Every key is kept. -/
theorem mem_map_distinctBy {k : γ} : k ∈ (distinctBy key xs).map key ↔ k ∈ xs.map key := by
  rw [distinctBy, mem_map_distinctFrom]
  simp

/-- And kept once. -/
theorem nodup_map_distinctBy : ((distinctBy key xs).map key).Nodup := nodup_map_distinctFrom

theorem mem_distinctBy_id {xs : List γ} {k : γ} : k ∈ distinctBy id xs ↔ k ∈ xs := by
  have h : k ∈ (distinctBy id xs).map id ↔ k ∈ xs.map id := mem_map_distinctBy
  rwa [map_id, map_id] at h

theorem nodup_distinctBy_id {xs : List γ} : (distinctBy id xs).Nodup := by
  have h : ((distinctBy id xs).map id).Nodup := nodup_map_distinctBy
  rwa [map_id] at h

theorem exists_mem_distinctBy {p : γ → Prop} :
    (∃ x ∈ distinctBy key xs, p (key x)) ↔ ∃ x ∈ xs, p (key x) := by
  constructor
  · rintro ⟨x, hx, hp⟩
    exact ⟨x, mem_of_mem_distinctBy hx, hp⟩
  · rintro ⟨x, hx, hp⟩
    have hkept : key x ∈ (distinctBy key xs).map key := mem_map_distinctBy.mpr (mem_map_of_mem hx)
    obtain ⟨y, hy, hkey⟩ := mem_map.mp hkept
    exact ⟨y, hy, hkey ▸ hp⟩

/-- Lists with the same keys keep the same keys. -/
theorem perm_map_distinctBy {key' : β → γ} {ys : List β}
    (h : ∀ k, k ∈ xs.map key ↔ k ∈ ys.map key') :
    ((distinctBy key xs).map key).Perm ((distinctBy key' ys).map key') := by
  rw [perm_ext_iff_of_nodup nodup_map_distinctBy nodup_map_distinctBy]
  intro k
  rw [mem_map_distinctBy, mem_map_distinctBy]
  exact h k

section Tally

omit [DecidableEq γ]

/-- One more item of its kind. -/
def addTo (same : α → α → Bool) (x : α) : List (α × Nat) → List (α × Nat)
  | [] => [(x, 1)]
  | (k, n) :: rest => if same k x then (k, n + 1) :: rest else (k, n) :: addTo same x rest

/-- The kinds of a list in their order, each by its first item, with how many there are. -/
def countBy (same : α → α → Bool) (xs : List α) : List (α × Nat) :=
  xs.foldl (fun counts x => addTo same x counts) []

/-- The counts of the items seen. -/
structure Tally (same : α → α → Bool) (seen : List α) (counts : List (α × Nat)) : Prop where
  counted : ∀ g ∈ counts, g.1 ∈ seen ∧ g.2 = seen.countP (same g.1)
  covers : ∀ x ∈ seen, ∃ g ∈ counts, same g.1 x = true
  apart : counts.Pairwise fun g h => same g.1 h.1 = false

/-- The same kinds with the same counts, a kind being the same by a test. -/
def TalliesAgree (same : α → α → Bool) (a b : List (α × Nat)) : Prop :=
  (∀ g ∈ a, ∃ h ∈ b, same g.1 h.1 = true ∧ g.2 = h.2) ∧
    ∀ h ∈ b, ∃ g ∈ a, same g.1 h.1 = true ∧ g.2 = h.2

variable {same : α → α → Bool} {view : α → γ} (hsame : ∀ a b, same a b = true ↔ view a = view b)

include hsame

theorem addTo_eq (x : α) :
    ∀ counts : List (α × Nat), counts.Pairwise (fun g h => same g.1 h.1 = false) →
      addTo same x counts = counts.map (fun g => (g.1, if same g.1 x then g.2 + 1 else g.2)) ++
          if counts.any (fun g => same g.1 x) then [] else [(x, 1)]
  | [], _ => rfl
  | (k, n) :: rest, h => by
    obtain ⟨hfirst, hrest⟩ := pairwise_cons.mp h
    by_cases hk : same k x = true
    · have hothers : ∀ g ∈ rest, same g.1 x = false := by
        intro g hg
        cases hgx : same g.1 x with
        | false => rfl
        | true =>
          have hkg : same k g.1 = true :=
            (hsame _ _).mpr (((hsame _ _).mp hk).trans ((hsame _ _).mp hgx).symm)
          exact absurd hkg (by simp [hfirst g hg])
      have hmap : rest.map (fun g => (g.1, if same g.1 x then g.2 + 1 else g.2)) = rest := by
        conv_rhs => rw [← map_id rest]
        refine map_congr_left fun g hg => ?_
        simp [hothers g hg]
      simp [addTo, hk, hmap]
    · rw [Bool.not_eq_true] at hk
      rw [addTo, if_neg (by simp [hk]), addTo_eq x rest hrest, map_cons, any_cons]
      simp only [hk, Bool.false_eq_true, if_false, Bool.false_or, cons_append]

theorem Tally.step {seen : List α} {counts : List (α × Nat)} (h : Tally same seen counts) (x : α) :
    Tally same (seen ++ [x]) (addTo same x counts) := by
  have hrefl : same x x = true := (hsame x x).mpr rfl
  rw [addTo_eq hsame x counts h.apart]
  refine ⟨?_, ?_, ?_⟩
  · intro g hg
    rcases mem_append.mp hg with hg | hg
    · obtain ⟨g, hmem, rfl⟩ := mem_map.mp hg
      obtain ⟨hseen, hcount⟩ := h.counted g hmem
      refine ⟨mem_append_left _ hseen, ?_⟩
      rw [countP_append, ← hcount]
      by_cases hgx : same g.1 x = true <;> simp [hgx]
    · cases hany : counts.any fun g => same g.1 x with
      | true => simp [hany] at hg
      | false =>
        simp only [hany, Bool.false_eq_true, if_false, mem_singleton] at hg
        subst hg
        -- An item like it that was seen would have its kind among the counts.
        have hnone : ∀ y ∈ seen, ¬same x y = true := by
          intro y hy hxy
          obtain ⟨g, hmem, hgy⟩ := h.covers y hy
          have hgx : same g.1 x = true :=
            (hsame _ _).mpr (((hsame _ _).mp hgy).trans ((hsame _ _).mp hxy).symm)
          exact absurd hgx (by simpa using any_eq_false.mp hany g hmem)
        refine ⟨by simp, ?_⟩
        simp [countP_append, countP_eq_zero.mpr hnone, hrefl]
  · intro y hy
    rcases mem_append.mp hy with hy | hy
    · obtain ⟨g, hmem, hgy⟩ := h.covers y hy
      exact ⟨_, mem_append_left _ (mem_map_of_mem hmem), hgy⟩
    · rw [mem_singleton.mp hy]
      cases hany : counts.any fun g => same g.1 x with
      | true =>
        obtain ⟨g, hmem, hgx⟩ := any_eq_true.mp hany
        exact ⟨_, mem_append_left _ (mem_map_of_mem hmem), hgx⟩
      | false => exact ⟨(x, 1), by simp, hrefl⟩
  · have hmap : (counts.map fun g => (g.1, if same g.1 x then g.2 + 1 else g.2)).Pairwise
        fun g h => same g.1 h.1 = false := by
      rw [pairwise_map]
      exact h.apart
    cases hany : counts.any fun g => same g.1 x with
    | true => simpa using hmap
    | false =>
      simp only [Bool.false_eq_true, if_false]
      rw [pairwise_append]
      refine ⟨hmap, pairwise_singleton _ _, ?_⟩
      intro g hg h hh
      obtain ⟨g, hmem, rfl⟩ := mem_map.mp hg
      rw [mem_singleton.mp hh]
      exact Bool.eq_false_iff.mpr (any_eq_false.mp hany g hmem)

theorem tally_countBy (xs : List α) : Tally same xs (countBy same xs) := by
  have hrun : ∀ (todo seen : List α) (counts : List (α × Nat)), Tally same seen counts →
      Tally same (seen ++ todo) (todo.foldl (fun counts x => addTo same x counts) counts) := by
    intro todo
    induction todo with
    | nil =>
      intro seen counts h
      simpa using h
    | cons x _ ih =>
      intro seen counts h
      have hstep := ih (seen ++ [x]) (addTo same x counts) (h.step hsame x)
      simpa using hstep
  exact hrun xs [] [] ⟨by simp, by simp, List.Pairwise.nil⟩

/-- The counts by a finer test are the counts by this one exactly when no two items are
told apart by the finer test only. -/
theorem talliesAgree_iff {fine : α → α → Bool} {form : α → β}
    (hfine : ∀ a b, fine a b = true ↔ form a = form b)
    (hle : ∀ a b, fine a b = true → same a b = true) (xs : List α) :
    TalliesAgree same (countBy fine xs) (countBy same xs) ↔
      ∀ a ∈ xs, ∀ b ∈ xs, same a b = true → fine a b = true := by
  have hf := tally_countBy hfine xs
  have hs := tally_countBy hsame xs
  constructor
  · rintro ⟨hagree, -⟩ a ha b hb hab
    by_contra hnot
    obtain ⟨g, hg, hga⟩ := hf.covers a ha
    obtain ⟨h, hh, hgh, hcount⟩ := hagree g hg
    rw [(hf.counted g hg).2, (hs.counted h hh).2] at hcount
    -- The kind of `a` by the finer test lacks `b`.
    have hviews : view g.1 = view a := (hsame _ _).mp (hle _ _ hga)
    have hlt : xs.countP (fine g.1) < xs.countP (same h.1) := by
      rw [countP_eq_length_filter, countP_eq_length_filter]
      have hsub : ((xs.filter (same h.1)).filter (fine g.1)) = xs.filter (fine g.1) := by
        rw [filter_filter]
        refine filter_congr fun y _ => ?_
        cases hy : fine g.1 y with
        | false => rfl
        | true =>
          have : same h.1 y = true :=
            (hsame _ _).mpr (((hsame _ _).mp hgh).symm.trans ((hsame _ _).mp (hle _ _ hy)))
          simp [this]
      rw [← hsub]
      refine length_filter_lt_length_iff_exists.mpr ⟨b, ?_, ?_⟩
      · rw [mem_filter]
        refine ⟨hb, (hsame _ _).mpr ?_⟩
        exact (((hsame _ _).mp hgh).symm.trans hviews).trans ((hsame _ _).mp hab)
      · intro hgb
        exact hnot ((hfine _ _).mpr (((hfine _ _).mp hga).symm.trans ((hfine _ _).mp hgb)))
    omega
  · intro hall
    have hcongr : ∀ k ∈ xs, ∀ l, same k l = true → xs.countP (fine k) = xs.countP (same l) := by
      intro k hk l hkl
      refine countP_congr fun y hy => ⟨fun h => ?_, fun h => hall k hk y hy ?_⟩
      · exact (hsame _ _).mpr (((hsame _ _).mp hkl).symm.trans ((hsame _ _).mp (hle _ _ h)))
      · exact (hsame _ _).mpr (((hsame _ _).mp hkl).trans ((hsame _ _).mp h))
    refine ⟨?_, ?_⟩
    · intro g hg
      obtain ⟨hmem, hcount⟩ := hf.counted g hg
      obtain ⟨h, hh, hhg⟩ := hs.covers g.1 hmem
      have hgh : same g.1 h.1 = true := (hsame _ _).mpr ((hsame _ _).mp hhg).symm
      refine ⟨h, hh, hgh, ?_⟩
      rw [hcount, (hs.counted h hh).2]
      exact hcongr _ hmem _ hgh
    · intro h hh
      obtain ⟨hmem, hcount⟩ := hs.counted h hh
      obtain ⟨g, hg, hgh⟩ := hf.covers h.1 hmem
      refine ⟨g, hg, hle _ _ hgh, ?_⟩
      rw [hcount, (hf.counted g hg).2]
      exact hcongr _ (hf.counted g hg).1 _ (hle _ _ hgh)

end Tally

end StudioWeb
