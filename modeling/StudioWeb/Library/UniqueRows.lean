import Mathlib.Data.List.Nodup
import Mathlib.Tactic.Common

/-!
# Rows under a primary key and a unique index

A table in which no two rows have one key, nor one value of the index.  An insert that
updates on a conflict of the key replaces the row with that key; it is refused where another
row has its value of the index.

In a map that is collected from a list, of the entries with one key the last one stays.
-/

namespace StudioWeb

open List

universe u v w

/-- The rows of a table, with the two constraints. -/
structure UniqueRows {α : Type u} {κ : Type v} {ι : Type w} (key : α → κ) (index : α → ι) where
  rows : List α
  keys : (rows.map key).Nodup
  indexed : (rows.map index).Nodup

namespace UniqueRows

variable {α : Type u} {κ : Type v} {ι : Type w} [DecidableEq κ] [DecidableEq ι]
variable {key : α → κ} {index : α → ι} {table made : UniqueRows key index} {row r : α} {k : κ}

def empty : UniqueRows key index := ⟨[], nodup_nil, nodup_nil⟩

/-- The rows that an insert leaves alone. -/
def others (table : UniqueRows key index) (row : α) : List α :=
  table.rows.filter fun r => key r ≠ key row

def get? (table : UniqueRows key index) (k : κ) : Option α := table.rows.find? fun r => key r = k

omit [DecidableEq ι] in
theorem mem_others_iff : r ∈ table.others row ↔ r ∈ table.rows ∧ key r ≠ key row := by
  simp [others]

omit [DecidableEq ι] in
theorem nodup_keys_cons (table : UniqueRows key index) (row : α) :
    ((row :: table.others row).map key).Nodup := by
  rw [map_cons, nodup_cons]
  constructor
  · intro h
    obtain ⟨r, hr, hkey⟩ := mem_map.mp h
    exact (mem_others_iff.mp hr).2 hkey
  · exact table.keys.sublist (filter_sublist.map key)

omit [DecidableEq ι] in
theorem nodup_index_cons (table : UniqueRows key index) (row : α)
    (h : index row ∉ (table.others row).map index) :
    ((row :: table.others row).map index).Nodup := by
  rw [map_cons, nodup_cons]
  exact ⟨h, table.indexed.sublist (filter_sublist.map index)⟩

/-- `INSERT … ON CONFLICT (key) DO UPDATE`; the index refuses it with `none`. -/
def upsert? (table : UniqueRows key index) (row : α) : Option (UniqueRows key index) :=
  if h : index row ∉ (table.others row).map index then
    some ⟨row :: table.others row, table.nodup_keys_cons row, table.nodup_index_cons row h⟩
  else
    none

theorem rows_upsert (h : table.upsert? row = some made) : made.rows = row :: table.others row := by
  unfold upsert? at h
  split at h
  · cases h
    rfl
  · cases h

theorem upsert_eq_none_iff :
    table.upsert? row = none ↔
      ∃ r ∈ table.rows, key r ≠ key row ∧ index r = index row := by
  unfold upsert?
  constructor
  · intro h
    split at h
    · cases h
    · next hmem =>
      rw [not_not] at hmem
      obtain ⟨r, hr, hindex⟩ := mem_map.mp hmem
      obtain ⟨hrow, hkey⟩ := mem_others_iff.mp hr
      exact ⟨r, hrow, hkey, hindex⟩
  · rintro ⟨r, hr, hkey, hindex⟩
    rw [dif_neg]
    rw [not_not, ← hindex]
    exact mem_map_of_mem (mem_others_iff.mpr ⟨hr, hkey⟩)

/-- After an insert the row is there, and those with another key are. -/
theorem mem_upsert_iff (h : table.upsert? row = some made) :
    r ∈ made.rows ↔ r = row ∨ r ∈ table.rows ∧ key r ≠ key row := by
  rw [rows_upsert h, mem_cons, mem_others_iff]

omit [DecidableEq ι] in
theorem get?_eq_some_iff : table.get? k = some r ↔ r ∈ table.rows ∧ key r = k := by
  unfold get?
  constructor
  · intro h
    have hkey := find?_some h
    exact ⟨mem_of_find?_eq_some h, of_decide_eq_true hkey⟩
  · rintro ⟨hr, hkey⟩
    cases hfind : table.rows.find? fun r => decide (key r = k) with
    | none =>
      have hnot := find?_eq_none.mp hfind r hr
      exact absurd (decide_eq_true hkey) hnot
    | some q =>
      have hfound := find?_some hfind
      have hq : key q = k := of_decide_eq_true hfound
      have hsame : q = r :=
        inj_on_of_nodup_map table.keys (mem_of_find?_eq_some hfind) hr (hq.trans hkey.symm)
      rw [hsame]

theorem get?_upsert (h : table.upsert? row = some made) : made.get? (key row) = some row :=
  get?_eq_some_iff.mpr ⟨(mem_upsert_iff h).mpr (.inl rfl), rfl⟩

end UniqueRows

section LastEntry

variable {κ : Type u} {β : Type v} [DecidableEq κ]

def lastEntry (entries : List (κ × β)) (k : κ) : Option β :=
  (entries.reverse.find? fun e => e.1 = k).map Prod.snd

variable {entries : List (κ × β)} {k : κ}

theorem lastEntry_eq_none_iff :
    lastEntry entries k = none ↔ ∀ b, (k, b) ∉ entries := by
  simp only [lastEntry, Option.map_eq_none_iff, find?_eq_none, mem_reverse,
    decide_eq_true_eq, Prod.forall]
  constructor
  · intro h b hb
    exact h k b hb rfl
  · rintro h k' b hb rfl
    exact h b hb

theorem mem_of_lastEntry {b : β} (h : lastEntry entries k = some b) : (k, b) ∈ entries := by
  obtain ⟨⟨k', b'⟩, hfind, rfl⟩ := Option.map_eq_some_iff.mp h
  have hmem := mem_of_find?_eq_some hfind
  have hkey : k' = k := by simpa using find?_some hfind
  subst hkey
  exact mem_reverse.mp hmem

theorem exists_lastEntry {b : β} (h : (k, b) ∈ entries) :
    ∃ b', lastEntry entries k = some b' := by
  cases hlast : lastEntry entries k with
  | none => exact absurd h (lastEntry_eq_none_iff.mp hlast b)
  | some b' => exact ⟨b', rfl⟩

theorem eq_or_before_of_lastEntry {b b' : β}
    (h : lastEntry entries k = some b) (hmem : (k, b') ∈ entries) :
    b' = b ∨ [(k, b'), (k, b)].Sublist entries := by
  induction entries with
  | nil => cases hmem
  | cons e rest ih =>
    by_cases hrest : ∃ c, (k, c) ∈ rest
    · -- the last entry is one of the rest
      have hlast : lastEntry rest k = some b := by
        obtain ⟨c, hc⟩ := hrest
        obtain ⟨b'', hb''⟩ := exists_lastEntry hc
        have hsame : lastEntry (e :: rest) k = lastEntry rest k := by
          unfold lastEntry at hb'' ⊢
          rw [reverse_cons, find?_append]
          cases hfind : rest.reverse.find? (fun e => decide (e.1 = k)) with
          | none =>
            rw [hfind] at hb''
            cases hb''
          | some => rfl
        exact hsame.symm.trans h
      rcases mem_cons.mp hmem with rfl | hin
      · exact Or.inr ((singleton_sublist.mpr (mem_of_lastEntry hlast)).cons_cons _)
      · rcases ih hlast hin with heq | hsub
        · exact Or.inl heq
        · exact Or.inr (hsub.cons _)
    · left
      have honly : ∀ c, (k, c) ∈ e :: rest → (k, c) = e := by
        intro c hc
        rcases mem_cons.mp hc with heq | hin
        · exact heq
        · exact absurd ⟨c, hin⟩ hrest
      have heq := (honly b' hmem).trans (honly b (mem_of_lastEntry h)).symm
      exact (Prod.ext_iff.mp heq).2

end LastEntry

end StudioWeb
