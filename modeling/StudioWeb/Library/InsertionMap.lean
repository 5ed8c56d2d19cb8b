import Mathlib.Data.List.Nodup

/-!
# Maps that remember the order of insertion

The `Map` of JavaScript: at most one value for each key, and iteration in the
order in which the keys were first set.  Setting a key that is there keeps its
place.  That no key occurs twice is a field.
-/

namespace StudioWeb

open List Option

universe u v w

/-- The entries of a list with the value of one key replaced or added. -/
def setEntry {κ : Type u} {β : Type v} [DecidableEq κ] (k : κ) (b : β) :
    List (κ × β) → List (κ × β)
  | [] => [(k, b)]
  | entry :: rest =>
    if entry.1 = k then (k, b) :: rest else entry :: setEntry k b rest

structure InsertionMap (κ : Type u) (β : Type v) where
  entries : List (κ × β)
  keys_nodup : (entries.map Prod.fst).Nodup

section SetEntry

variable {κ : Type u} {β : Type v} [DecidableEq κ]

theorem map_fst_setEntry (k : κ) (b : β) :
    ∀ entries : List (κ × β), (setEntry k b entries).map Prod.fst =
        if k ∈ entries.map Prod.fst then
          entries.map Prod.fst
        else
          entries.map Prod.fst ++ [k]
  | [] => by simp [setEntry]
  | entry :: rest => by
    have ih := map_fst_setEntry k b rest
    by_cases h : entry.1 = k
    · simp [setEntry, h]
    · have hk : k ≠ entry.1 := fun hk => h hk.symm
      simp only [setEntry, h, if_false, map_cons, ih, mem_cons, hk, false_or]
      split <;> simp

theorem find?_setEntry (k k' : κ) (b : β) :
    ∀ entries : List (κ × β), (setEntry k b entries).find? (fun e => e.1 = k') =
        if k' = k then some (k, b) else entries.find? (fun e => e.1 = k')
  | [] => by
    by_cases h : k' = k
    · simp [setEntry, h]
    · have hk : ¬ k = k' := fun hk => h hk.symm
      simp [setEntry, h, hk]
  | entry :: rest => by
    have ih := find?_setEntry k k' b rest
    by_cases hentry : entry.1 = k
    · by_cases h : k' = k
      · simp [setEntry, hentry, h]
      · have hk : ¬ k = k' := fun hk => h hk.symm
        simp [setEntry, hentry, h, hk]
    · by_cases h : k' = k
      · subst h
        simp only [setEntry, hentry, if_false, find?_cons,
          decide_false, ih, if_true]
      · simp only [setEntry, hentry, if_false, find?_cons, ih, h]

end SetEntry

namespace InsertionMap

variable {κ : Type u} {β : Type v} [DecidableEq κ]

/-- `new Map()`. -/
def empty : InsertionMap κ β := ⟨[], nodup_nil⟩

/-- `map.keys()`. -/
def keys (m : InsertionMap κ β) : List κ := m.entries.map Prod.fst

def size (m : InsertionMap κ β) : Nat := m.entries.length

/-- `map.get(k)`. -/
def get? (m : InsertionMap κ β) (k : κ) : Option β :=
  (m.entries.find? (fun e => e.1 = k)).map Prod.snd

/-- `map.set(k, b)`. -/
def set (m : InsertionMap κ β) (k : κ) (b : β) : InsertionMap κ β :=
  ⟨setEntry k b m.entries, by
    rw [map_fst_setEntry]
    split
    · exact m.keys_nodup
    · next hk =>
      exact nodup_append.mpr ⟨m.keys_nodup, nodup_singleton _, fun a ha c hc hac =>
          hk (by rw [mem_singleton.mp hc] at hac; exact hac ▸ ha)⟩⟩

/-- `map.delete(k)`. -/
def erase (m : InsertionMap κ β) (k : κ) : InsertionMap κ β :=
  ⟨m.entries.filter (fun e => e.1 ≠ k), m.keys_nodup.sublist (filter_sublist.map Prod.fst)⟩

/-- `map.values()`. -/
def values (m : InsertionMap κ β) : List β := m.entries.map Prod.snd

/-- `map.retain(..)`: only the values that pass. -/
def keepIf (m : InsertionMap κ β) (p : β → Bool) : InsertionMap κ β :=
  ⟨m.entries.filter (fun e => p e.2), m.keys_nodup.sublist (filter_sublist.map Prod.fst)⟩

@[simp] theorem get?_empty (k : κ) : (empty : InsertionMap κ β).get? k = none := by
  rfl

variable (m : InsertionMap κ β)

theorem get?_set (k k' : κ) (b : β) :
    (m.set k b).get? k' = if k' = k then some b else m.get? k' := by
  simp only [get?, set, find?_setEntry]
  split <;> simp

@[simp] theorem get?_set_self (k : κ) (b : β) :
    (m.set k b).get? k = some b := by
  simp [get?_set]

theorem get?_erase (k k' : κ) :
    (m.erase k).get? k' = if k' = k then none else m.get? k' := by
  simp only [get?, erase]
  by_cases h : k' = k
  · subst h
    simp only [if_true, map_eq_none_iff]
    rw [find?_eq_none]
    intro e he
    simpa using (mem_filter.mp he).2
  · simp only [if_neg h]
    congr 1
    rw [find?_filter]
    congr 1
    funext e
    by_cases hk : e.1 = k'
    · simp [hk, h]
    · simp [hk]

/-- The keys are those a lookup finds. -/
theorem mem_keys_iff (k : κ) : k ∈ m.keys ↔ ∃ b, m.get? k = some b := by
  simp only [keys, get?, map_eq_some_iff]
  constructor
  · intro h
    obtain ⟨e, he, hek⟩ := List.mem_map.mp h
    have hsome : (m.entries.find? (fun e => e.1 = k)).isSome := by
      rw [find?_isSome]
      exact ⟨e, he, by simp [hek]⟩
    obtain ⟨f, hf⟩ := isSome_iff_exists.mp hsome
    exact ⟨f.2, f, hf, rfl⟩
  · rintro ⟨b, e, he, rfl⟩
    have hk : e.1 = k := by simpa using find?_some he
    exact hk ▸ List.mem_map_of_mem (mem_of_find?_eq_some he)

theorem get?_eq_some_iff (k : κ) (b : β) :
    m.get? k = some b ↔ (k, b) ∈ m.entries := by
  simp only [get?, map_eq_some_iff]
  constructor
  · rintro ⟨e, he, rfl⟩
    have hk : e.1 = k := by simpa using find?_some he
    exact hk ▸ mem_of_find?_eq_some he
  · intro hmem
    have hsome : (m.entries.find? (fun e => e.1 = k)).isSome := by
      rw [find?_isSome]
      exact ⟨(k, b), hmem, by simp⟩
    obtain ⟨e, he⟩ := isSome_iff_exists.mp hsome
    have hk : e.1 = k := by simpa using find?_some he
    have heq := inj_on_of_nodup_map m.keys_nodup (mem_of_find?_eq_some he) hmem hk
    exact ⟨e, he, by rw [heq]⟩

theorem mem_values_iff (b : β) : b ∈ m.values ↔ ∃ k, m.get? k = some b := by
  simp only [values, get?_eq_some_iff, List.mem_map, Prod.exists, exists_eq_right]

omit [DecidableEq κ] in
theorem mem_values_keepIf (m : InsertionMap κ β) (p : β → Bool) (b : β) :
    b ∈ (m.keepIf p).values ↔ b ∈ m.values ∧ p b = true := by
  simp only [values, keepIf, List.mem_map, mem_filter]
  constructor
  · rintro ⟨e, ⟨he, hp⟩, rfl⟩
    exact ⟨⟨e, he, rfl⟩, hp⟩
  · rintro ⟨⟨e, he, rfl⟩, hp⟩
    exact ⟨e, ⟨he, hp⟩, rfl⟩

theorem get?_keepIf (m : InsertionMap κ β) (p : β → Bool) (k : κ) :
    (m.keepIf p).get? k = (m.get? k).filter p := by
  ext b
  rw [get?_eq_some_iff, filter_eq_some_iff, get?_eq_some_iff]
  exact mem_filter

section SetAll

variable {α : Type w} (key : α → κ) (val : α → β)

def setAll (m : InsertionMap κ β) (xs : List α) : InsertionMap κ β :=
  xs.foldl (fun m x => m.set (key x) (val x)) m

variable {m : InsertionMap κ β} {xs : List α}

theorem get?_setAll_of_notMem {k : κ} (h : k ∉ xs.map key) :
    (m.setAll key val xs).get? k = m.get? k := by
  unfold setAll
  induction xs generalizing m with
  | nil => rfl
  | cons _ _ ih =>
    rw [map_cons, mem_cons, not_or] at h
    rw [foldl_cons, ih h.2, get?_set, if_neg h.1]

theorem get?_setAll_of_mem {x : α} (hnodup : (xs.map key).Nodup) (hx : x ∈ xs) :
    (m.setAll key val xs).get? (key x) = some (val x) := by
  unfold setAll
  induction xs generalizing m with
  | nil => cases hx
  | cons _ rest ih =>
    rw [map_cons, nodup_cons] at hnodup
    rw [foldl_cons]
    rcases mem_cons.mp hx with rfl | hx
    · have hrest : ((m.set (key x) (val x)).setAll key val rest).get? (key x) =
          (m.set (key x) (val x)).get? (key x) :=
        get?_setAll_of_notMem key val hnodup.1
      rw [setAll] at hrest
      rw [hrest, get?_set_self]
    · exact ih hnodup.2 hx

theorem setAll_append {xs ys : List α} :
    m.setAll key val (xs ++ ys) = (m.setAll key val xs).setAll key val ys := by
  simp [setAll]

theorem get?_setAll_cases {k : κ} :
    (m.setAll key val xs).get? k = m.get? k ∨
      ∃ x ∈ xs, key x = k ∧ (m.setAll key val xs).get? k = some (val x) := by
  induction xs generalizing m with
  | nil => exact .inl rfl
  | cons y rest ih =>
    have hcons : m.setAll key val (y :: rest) = (m.set (key y) (val y)).setAll key val rest := rfl
    rw [hcons]
    rcases ih (m := m.set (key y) (val y)) with hsame | ⟨x, hx, hkey, hval⟩
    · by_cases hy : k = key y
      · refine .inr ⟨y, mem_cons_self, hy.symm, ?_⟩
        rw [hsame, hy, get?_set_self]
      · left
        rw [hsame, get?_set, if_neg hy]
    · exact .inr ⟨x, mem_cons_of_mem _ hx, hkey, hval⟩

theorem get?_setAll_of_key_mem {k : κ} (hk : k ∈ xs.map key) :
    ∃ x ∈ xs, key x = k ∧ (m.setAll key val xs).get? k = some (val x) := by
  induction xs generalizing m with
  | nil => cases hk
  | cons y rest ih =>
    have hcons : m.setAll key val (y :: rest) = (m.set (key y) (val y)).setAll key val rest := rfl
    rw [hcons]
    by_cases hrest : k ∈ rest.map key
    · obtain ⟨x, hx, hkey, hval⟩ := ih (m := m.set (key y) (val y)) hrest
      exact ⟨x, mem_cons_of_mem _ hx, hkey, hval⟩
    · have hy : k = key y := by
        rcases mem_cons.mp hk with hy | hmem
        · exact hy
        · exact absurd hmem hrest
      refine ⟨y, mem_cons_self, hy.symm, ?_⟩
      rw [get?_setAll_of_notMem key val hrest, hy, get?_set_self]

end SetAll

theorem get?_eq_none_iff (m : InsertionMap κ β) (k : κ) : m.get? k = none ↔ k ∉ m.keys := by
  rw [mem_keys_iff]
  cases m.get? k <;> simp

theorem keys_set (m : InsertionMap κ β) (k : κ) (b : β) :
    (m.set k b).keys = if k ∈ m.keys then m.keys else m.keys ++ [k] :=
  map_fst_setEntry k b m.entries

theorem keys_setAll_of_mem {α : Type w} {key : α → κ} {val : α → β}
    {m : InsertionMap κ β} {xs : List α} (hmem : ∀ x ∈ xs, key x ∈ m.keys) :
    (m.setAll key val xs).keys = m.keys := by
  induction xs generalizing m with
  | nil => rfl
  | cons y rest ih =>
    have hset : (m.set (key y) (val y)).keys = m.keys := by
      rw [keys_set, if_pos (hmem y mem_cons_self)]
    have hrest : ((m.set (key y) (val y)).setAll key val rest).keys =
        (m.set (key y) (val y)).keys := by
      apply ih
      intro x hx
      rw [hset]
      exact hmem x (mem_cons_of_mem _ hx)
    exact hrest.trans hset

theorem ext_get? {m n : InsertionMap κ β} (hkeys : m.keys = n.keys)
    (hget : ∀ k, m.get? k = n.get? k) : m = n := by
  have hzip : ∀ es fs : List (κ × β), es.map Prod.fst = fs.map Prod.fst →
      (∀ e ∈ es, ∀ f ∈ fs, e.1 = f.1 → e.2 = f.2) → es = fs := by
    intro es
    induction es with
    | nil =>
      intro fs hfst _
      simpa using hfst.symm
    | cons e es ih =>
      intro fs hfst hsame
      cases fs with
      | nil => simp at hfst
      | cons f fs =>
        simp only [map_cons, List.cons.injEq] at hfst
        have hhead : e = f := Prod.ext hfst.1 (hsame e mem_cons_self f mem_cons_self hfst.1)
        have htail : es = fs :=
          ih fs hfst.2 fun a ha b hb =>
            hsame a (mem_cons_of_mem _ ha) b (mem_cons_of_mem _ hb)
        rw [hhead, htail]
  have hentries : m.entries = n.entries := by
    refine hzip m.entries n.entries hkeys ?_
    rintro ⟨k, b⟩ hb ⟨k', b'⟩ hb' hk
    have hk' : k = k' := hk
    subst hk'
    have hm := (get?_eq_some_iff m k b).mpr hb
    have hn := (get?_eq_some_iff n k b').mpr hb'
    exact some.inj (hm.symm.trans ((hget k).trans hn))
  cases m
  cases n
  simpa using hentries

theorem size_set (m : InsertionMap κ β) (k : κ) (b : β) :
    (m.set k b).size = if k ∈ m.keys then m.size else m.size + 1 := by
  have hkeys := congrArg List.length (keys_set m k b)
  have hlen : ∀ n : InsertionMap κ β, n.size = n.keys.length := by
    intro n
    simp [size, keys]
  rw [hlen, hlen, hkeys]
  split
  · rfl
  · simp

theorem size_erase_le (m : InsertionMap κ β) (k : κ) : (m.erase k).size ≤ m.size :=
  length_filter_le _ _

end InsertionMap
end StudioWeb
