import StudioWeb.Library.Conditions
import Mathlib.Data.List.Nodup

/-!
# Paging a list by the item that a page ended with

A page after an item begins at the first item of the list that is `past` it, by a test
that knows nothing of positions, and ends after a limit.  Reading on is following the
last item of a page as long as there are items after it.

A list is `InPlace` for a test when the first item past any item but the last is the
next one.
-/

namespace StudioWeb
namespace CursorPaging

open List Option

universe u v

variable {α : Type u}

/-- The index at which the page after an item begins. -/
def startAfter (past : α → α → Bool) (items : List α) : Option α → Nat
  | none => 0
  | some c => (items.findIdx? (past c)).getD items.length

def pageAfter (past : α → α → Bool) (items : List α) (after : Option α) (limit : Nat) :
    List α × Option α :=
  let page := (items.drop (startAfter past items after)).take (limit + 1)
  if limit < page.length then
    (page.take limit, (page.take limit).getLast?)
  else
    (page, none)

/-- Read on from an item, as many pages as there is fuel. -/
def follow (past : α → α → Bool) (items : List α) (limits : Nat → Nat) :
    Nat → Nat → Option α → Option (List α)
  | 0, _, _ => none
  | fuel + 1, k, after =>
    match pageAfter past items after (limits k) with
    | (page, none) => some page
    | (page, some last) => (follow past items limits fuel (k + 1) (some last)).map (page ++ ·)

/-- The first item past an item is the next one. -/
def InPlace (past : α → α → Bool) (items : List α) : Prop :=
  ∀ i (h : i < items.length), i + 1 < items.length → items.findIdx? (past items[i]) = some (i + 1)

variable {past : α → α → Bool} {items : List α}

variable {after : Option α} {limits : Nat → Nat}

theorem pageAfter_eq {limit start : Nat} (hlimit : 0 < limit)
    (hstart : startAfter past items after = start) :
    pageAfter past items after limit =
      if h : start + limit < items.length then
        ((items.drop start).take limit, some (items[start + limit - 1]))
      else
        (items.drop start, none) := by
  have hlength : ((items.drop start).take (limit + 1)).length =
      min (limit + 1) (items.length - start) := by
    rw [length_take, length_drop]
  simp only [pageAfter, hstart, hlength]
  by_cases h : start + limit < items.length
  · rw [dif_pos h, if_pos (by omega), take_take, Nat.min_eq_left (Nat.le_succ limit)]
    congr 1
    rw [getLast?_eq_getElem?, length_take, length_drop,
      Nat.min_eq_left (by omega), getElem?_take_of_lt (by omega), getElem?_drop,
      getElem?_eq_getElem (by omega)]
    congr 2
    omega
  · rw [dif_neg h, if_neg (by omega), take_of_length_le]
    rw [length_drop]
    omega

theorem follow_from (hlimits : ∀ k, 0 < limits k) (h : InPlace past items) :
    ∀ (fuel k start : Nat) (after : Option α), startAfter past items after = start →
      items.length - start < fuel →
      follow past items limits fuel k after = some (items.drop start)
  | 0, k, start, after, _, hfuel => by omega
  | fuel + 1, k, start, after, hstart, hfuel => by
    have hlimit := hlimits k
    unfold follow
    rw [pageAfter_eq hlimit hstart]
    by_cases hmore : start + limits k < items.length
    · rw [dif_pos hmore]
      have hnext : startAfter past items (some items[start + limits k - 1]) = start + limits k := by
        have hplace := h (start + limits k - 1) (by omega) (by omega)
        rw [startAfter, hplace, getD_some]
        omega
      have hrest := follow_from hlimits h fuel (k + 1) (start + limits k) _ hnext (by omega)
      simp only [hrest, map_some, some.injEq]
      rw [← drop_drop, take_append_drop]
    · rw [dif_neg hmore]

/-- **Paging is exact** on a list in place. -/
theorem follow_exact (hlimits : ∀ k, 0 < limits k) (h : InPlace past items) :
    follow past items limits (items.length + 1) 0 none = some items :=
  follow_from hlimits h (items.length + 1) 0 0 none rfl (by omega)

theorem mem_of_follow :
    ∀ {fuel k : Nat} {after : Option α} {out : List α},
      follow past items limits fuel k after = some out → ∀ x ∈ out, x ∈ items
  | 0, _, _, _, h, _, _ => by cases h
  | fuel + 1, k, after, out, h, x, hx => by
    have hpage : ∀ y ∈ (pageAfter past items after (limits k)).1, y ∈ items := by
      intro y hy
      unfold pageAfter at hy
      dsimp only at hy
      split_ifs at hy
      · exact mem_of_mem_drop (mem_of_mem_take (mem_of_mem_take hy))
      · exact mem_of_mem_drop (mem_of_mem_take hy)
    unfold follow at h
    split at h
    · next _ hp =>
      rw [hp] at hpage
      cases h
      exact hpage x hx
    · next _ _ hp =>
      rw [hp] at hpage
      obtain ⟨rest, hrest, rfl⟩ := map_eq_some_iff.mp h
      rcases mem_append.mp hx with hx | hx
      · exact hpage x hx
      · exact mem_of_follow hrest x hx

theorem follow_one {fuel k start : Nat} (hstart : startAfter past items after = start) :
    follow past items (fun _ => 1) (fuel + 1) k after =
      if h : start + 1 < items.length then
        (follow past items (fun _ => 1) fuel (k + 1) (some (items[start]))).map (items[start] :: ·)
      else
        some (items.drop start) := by
  rw [follow, pageAfter_eq Nat.one_pos hstart]
  by_cases h : start + 1 < items.length
  · have hdrop : items.drop start = items[start] :: items.drop (start + 1) :=
      drop_eq_getElem_cons (by omega)
    rw [dif_pos h, dif_pos h, hdrop]
    rfl
  · rw [dif_neg h, dif_neg h]

theorem start_of_follow {fuel k n : Nat} (hnodup : items.Nodup) (hn : n < items.length)
    (hfollow : follow past items (fun _ => 1) fuel k after = some (items.drop n)) :
    startAfter past items after = n := by
  cases fuel with
  | zero => cases hfollow
  | succ =>
    rw [follow_one rfl] at hfollow
    have hdrop : items.drop n = items[n] :: items.drop (n + 1) := drop_eq_getElem_cons hn
    rw [hdrop] at hfollow
    split_ifs at hfollow with hmore
    · obtain ⟨rest, _, hrest⟩ := map_eq_some_iff.mp hfollow
      rw [List.cons.injEq] at hrest
      exact (List.Nodup.getElem_inj_iff hnodup).mp hrest.1
    · have hlt : startAfter past items after < items.length := by
        by_contra hge
        rw [drop_eq_nil_of_le (by omega)] at hfollow
        cases hfollow
      rw [drop_eq_getElem_cons hlt, some.injEq, List.cons.injEq] at hfollow
      exact (List.Nodup.getElem_inj_iff hnodup).mp hfollow.1

theorem findIdx?_of_follow (hnodup : items.Nodup) :
    ∀ (fuel k n : Nat) (after : Option α), n < items.length →
      follow past items (fun _ => 1) fuel k after = some (items.drop n) →
      ∀ (j : Nat) (hj : j < items.length), n ≤ j → j + 1 < items.length →
        items.findIdx? (past items[j]) = some (j + 1)
  | 0, _, _, _, _, hfollow, _, _, _, _ => by cases hfollow
  | fuel + 1, k, n, after, hn, hfollow, j, hj, hnj, hjlt => by
    have hstart := start_of_follow hnodup hn hfollow
    have hmore : n + 1 < items.length := by omega
    have hdrop : items.drop n = items[n] :: items.drop (n + 1) := drop_eq_getElem_cons hn
    rw [follow_one hstart, dif_pos hmore, hdrop] at hfollow
    obtain ⟨rest, hrest, heq⟩ := map_eq_some_iff.mp hfollow
    rw [List.cons.injEq] at heq
    rw [heq.2] at hrest
    rcases Nat.eq_or_lt_of_le hnj with rfl | hlt
    · have hnext := start_of_follow hnodup hmore hrest
      rw [startAfter.eq_def] at hnext
      dsimp only at hnext
      cases hfind : items.findIdx? (past items[n]) with
      | none =>
        rw [hfind, getD_none] at hnext
        omega
      | some =>
        rw [hfind, getD_some] at hnext
        rw [hnext]
    · exact findIdx?_of_follow hnodup fuel (k + 1) (n + 1) _ hmore hrest j hj hlt hjlt

/-- A list of distinct items that is read exactly, one item a page, is in place. -/
theorem inPlace_of_follow {fuel : Nat} (hnodup : items.Nodup)
    (hfollow : follow past items (fun _ => 1) fuel 0 none = some items) : InPlace past items := by
  intro j hj hjlt
  exact findIdx?_of_follow hnodup fuel 0 0 none (by omega) hfollow j hj (Nat.zero_le j) hjlt

/-- A list in which every later item, and no earlier one, is past an item. -/
theorem inPlace_of_pairwise (hself : ∀ a ∈ items, past a a = false)
    (h : items.Pairwise fun a b => past a b = true ∧ past b a = false) : InPlace past items := by
  intro i hi hlt
  rw [findIdx?_eq_some_iff_getElem]
  refine ⟨hlt, ?_, ?_⟩
  · exact (pairwise_iff_getElem.mp h i (i + 1) hi hlt (Nat.lt_succ_self i)).1
  · intro j hj
    rcases Nat.eq_or_lt_of_le (Nat.le_of_lt_succ hj) with rfl | hji
    · simp [hself items[j] (getElem_mem hi)]
    · have := (pairwise_iff_getElem.mp h j i (by omega) hi hji).2
      simp [this]

section Keyset

variable {R : Type u}

structure SortColumn (R : Type u) where
  Cell : Type v
  read : R → Option Cell
  order : Cell → Cell → Ordering
  desc : Bool

/-- `NULL` is last ascending and first descending. -/
def SortColumn.compare (k : SortColumn.{u, v} R) (r c : R) : Ordering :=
  let ascending : Ordering :=
    match k.read r, k.read c with
    | none, none => .eq
    | none, some _ => .gt
    | some _, none => .lt
    | some x, some y => k.order x y
  if k.desc then ascending.swap else ascending

/-- The order of rows that the columns give, the first one that differs deciding. -/
def rowOrder : List (SortColumn.{u, v} R) → R → R → Ordering
  | [], _, _ => .eq
  | k :: rest, r, c => (k.compare r c).then (rowOrder rest r c)

inductive RowTest (R : Type u) where
  | greater (k : SortColumn.{u, v} R) (p : k.Cell)
  | less (k : SortColumn.{u, v} R) (p : k.Cell)
  | equals (k : SortColumn.{u, v} R) (p : k.Cell)
  | isNull (k : SortColumn.{u, v} R)
  | isNotNull (k : SortColumn.{u, v} R)
  | or (a b : RowTest R)

/-- A comparison with `NULL` is unknown. -/
def RowTest.denote (r : R) : RowTest.{u, v} R → Truth
  | .greater k p => (k.read r).map fun x => k.order x p == .gt
  | .less k p => (k.read r).map fun x => k.order x p == .lt
  | .equals k p => (k.read r).map fun x => k.order x p == .eq
  | .isNull k => some (k.read r).isNone
  | .isNotNull k => some (k.read r).isSome
  | .or a b => (a.denote r).or (b.denote r)

def selects (r : R) (either : List (List (RowTest.{u, v} R))) : Bool :=
  ((either.map fun all => (all.map (RowTest.denote r)).foldr Truth.and (some true)).foldr
    Truth.or (some false)).getD false

structure CursorColumn (R : Type u) where
  column : SortColumn.{u, v} R
  value : Option column.Cell

def SortColumn.«at» (k : SortColumn.{u, v} R) (c : R) : CursorColumn R := ⟨k, k.read c⟩

def CursorColumn.beyond (c : CursorColumn.{u, v} R) : Option (RowTest R) :=
  match c.value, c.column.desc with
  -- Ascending, NULLs come last: nothing is past a NULL.
  | none, false => none
  -- Descending, NULLs come first: every value is past a NULL.
  | none, true => some (.isNotNull c.column)
  | some v, false => some (.or (.greater c.column v) (.isNull c.column))
  | some v, true => some (.less c.column v)

def CursorColumn.equal (c : CursorColumn.{u, v} R) : RowTest R :=
  match c.value with
  | some v => .equals c.column v
  | none => .isNull c.column

/-- `c1 > v1 OR (c1 = v1 AND c2 > v2) OR …`, after the columns that are to be equal. -/
def keyset (equal : List (RowTest.{u, v} R)) :
    List (CursorColumn.{u, v} R) → List (List (RowTest.{u, v} R))
  | [] => []
  | c :: rest =>
    (c.beyond.map fun beyond => equal ++ [beyond]).toList ++ keyset (equal ++ [c.equal]) rest

def RowTest.holds (r : R) (t : RowTest.{u, v} R) : Bool := (t.denote r).getD false

theorem selects_eq (r : R) (either : List (List (RowTest.{u, v} R))) :
    selects r either = either.any fun all => all.all (RowTest.holds r) := by
  have hall : ∀ all : List (RowTest.{u, v} R),
      ((all.map (RowTest.denote r)).foldr Truth.and (some true)).getD false =
        all.all (RowTest.holds r) := by
    intro all
    induction all with
    | nil => rfl
    | cons _ _ ih =>
      rw [map_cons, foldr_cons, Truth.coalesce_and, ih, all_cons, RowTest.holds]
  unfold selects
  induction either with
  | nil => rfl
  | cons _ _ ih =>
    rw [map_cons, foldr_cons, Truth.coalesce_or, ih, hall, any_cons]

theorem holds_equal (k : SortColumn.{u, v} R) (r c : R) :
    (k.at c).equal.holds r = (k.compare r c == .eq) := by
  unfold SortColumn.«at» CursorColumn.equal RowTest.holds SortColumn.compare
  cases hr : k.read r with
  | none => cases hc : k.read c <;> cases k.desc <;> simp [hr, RowTest.denote]
  | some x =>
    cases hc : k.read c with
    | none => cases k.desc <;> simp [hr, RowTest.denote]
    | some y =>
      cases hxy : k.order x y <;> cases k.desc <;> simp [hr, hxy, RowTest.denote]

theorem any_beyond (k : SortColumn.{u, v} R) (r c : R) :
    (k.at c).beyond.any (RowTest.holds r) = (k.compare r c == .gt) := by
  unfold SortColumn.«at» CursorColumn.beyond SortColumn.compare
  cases hr : k.read r with
  | none =>
    cases hc : k.read c <;> cases hd : k.desc <;>
      simp [hr, RowTest.holds, RowTest.denote, Truth.or]
  | some x =>
    cases hc : k.read c with
    | none => cases hd : k.desc <;> simp [hr, RowTest.holds, RowTest.denote]
    | some y =>
      cases hxy : k.order x y <;> cases hd : k.desc <;>
        simp [hr, hxy, RowTest.holds, RowTest.denote]

theorem any_keyset (r c : R) (ks : List (SortColumn.{u, v} R)) :
    ∀ equal : List (RowTest.{u, v} R),
      (keyset equal (ks.map fun k => k.at c)).any (fun all => all.all (RowTest.holds r)) =
        (equal.all (RowTest.holds r) && rowOrder ks r c == .gt) := by
  induction ks with
  | nil =>
    intro equal
    simp [keyset, rowOrder]
  | cons k _ ih =>
    intro equal
    have hbeyond : ((k.at c).beyond.map fun beyond => equal ++ [beyond]).toList.any
        (fun all => all.all (RowTest.holds r)) =
          (equal.all (RowTest.holds r) && k.compare r c == .gt) := by
      rw [← any_beyond]
      cases (k.at c).beyond with
      | none => simp
      | some => simp
    have hequal : (equal ++ [(k.at c).equal]).all (RowTest.holds r) =
        (equal.all (RowTest.holds r) && k.compare r c == .eq) := by
      rw [all_append, ← holds_equal]
      simp
    rw [map_cons, keyset, any_append, hbeyond, ih, hequal, rowOrder]
    cases k.compare r c <;> simp

/-- The condition of a row's cursor selects the rows after it. -/
theorem selects_keyset (ks : List (SortColumn.{u, v} R)) (r c : R) :
    selects r (keyset [] (ks.map fun k => k.at c)) = (rowOrder ks r c == .gt) := by
  rw [selects_eq, any_keyset]
  simp

end Keyset

end CursorPaging
end StudioWeb
