import StudioWeb.DomainModel.QueryPaging
import StudioWeb.DomainModel.QuerySql
import StudioWeb.Library.DistinctBy

/-!
# The groups of an aggregate

`groups_of` and `sorted` of `query.rs`, which count the matched objects in memory by the
values of the grouped fields, and the `GROUP BY` over `sql::group_key` of
`query/sql.rs`, which counts their rows.  In memory two keys are one when they are the
same JSON, so `1` and `1.0` are two; `jsonb` compares numbers by value.
-/

namespace StudioWeb
namespace DomainModel

open JsonValue List

universe u

variable {D : Type u}

structure Group (D : Type u) where
  key : List (Value D)
  count : Nat

/-- Largest group first, then by the text of its key. -/
def sorted (toString : List (Value D) → String) (sorting : Sorting (Group D))
    (groups : List (Group D)) : List (Group D) :=
  sorting.sort
    (fun a b => (compare b.count a.count).then (compare (toString a.key) (toString b.key)) == .lt)
    groups

/-- The grouped values of an object in memory. -/
def keyOf (paths : List (List String)) (n : ObjectNode D) : List (Value D) :=
  paths.map fun p => (lookup n p).getD .null

/-- `sql::group_key`: `jsonb_build_array` of the grouped values, `null` for a `NULL`. -/
def groupKey (paths : List (List String)) (row : ObjectNode D) : List (Value D) :=
  paths.map fun p =>
    let v := (valueAt p).value row none
    (if v.map kindOf = some "null" then none else v).getD .null

variable [Doubles D]

/-- `Vec<Value>` equality. -/
def sameKey (a b : List (Value D)) : Bool := sameValue (.array a) (.array b)

/-- Equality of two keys as `jsonb`. -/
def jsonbEqualKey (a b : List (Value D)) : Bool := jsonbEqual (.array a) (.array b)

/-- `groups_of`. -/
def groupsOf (toString : List (Value D) → String) (sorting : Sorting (Group D))
    (matched : List (ObjectNode D)) (paths : List (List String)) : List (Group D) :=
  sorted toString sorting ((countBy sameKey (matched.map (keyOf paths))).map fun g => ⟨g.1, g.2⟩)

/-- `SELECT key, COUNT(*) … GROUP BY 1`, in the order of `sorted`. -/
def groupsSql (toString : List (Value D) → String) (sorting : Sorting (Group D))
    (rows : List (ObjectNode D)) (paths : List (List String)) : List (Group D) :=
  sorted toString sorting
    ((countBy jsonbEqualKey (rows.map (groupKey paths))).map fun g => ⟨g.1, g.2⟩)

/-- The same set of keys with their counts, keys compared as `jsonb`. -/
def GroupsAgree (a b : List (Group D)) : Prop :=
  (∀ g ∈ a, ∃ h ∈ b, jsonbEqualKey g.key h.key = true ∧ g.count = h.count) ∧
    ∀ h ∈ b, ∃ g ∈ a, jsonbEqualKey g.key h.key = true ∧ g.count = h.count

omit [Doubles D] in
theorem groupKey_eq (paths : List (List String)) (n : ObjectNode D) :
    groupKey paths n = keyOf paths n := by
  refine map_congr_left fun p _ => ?_
  rw [lookup_eq]
  cases (valueAt p).value n none with
  | none => rfl
  | some x => cases x <;> rfl

variable (a b : List (Value D))

theorem sameKey_iff :
    sameKey a b = true ↔ (Value.array a).view id = (Value.array b).view id :=
  Value.sameBy_iff_view (by simp) _ _

theorem jsonbEqualKey_iff :
    jsonbEqualKey a b = true ↔ (Value.array a).view (fun n => Number.float n.numeric) =
        (Value.array b).view fun n => Number.float n.numeric :=
  Value.sameBy_iff_view (by simp) _ _

theorem jsonbEqualKey_of_sameKey (h : sameKey a b = true) :
    jsonbEqualKey a b = true :=
  Value.sameBy_mono (fun x y hxy => by rw [of_decide_eq_true hxy]; simp) _ _ h

theorem groupsAgree_iff_tallies (toString : List (Value D) → String)
    (sorting : Sorting (Group D)) (nodes : List (ObjectNode D)) (paths : List (List String)) :
    GroupsAgree (groupsOf toString sorting nodes paths) (groupsSql toString sorting nodes paths) ↔
      TalliesAgree jsonbEqualKey (countBy sameKey (nodes.map (keyOf paths)))
        (countBy jsonbEqualKey (nodes.map (keyOf paths))) := by
  have hkeys : nodes.map (groupKey paths) = nodes.map (keyOf paths) :=
    map_congr_left fun n _ => groupKey_eq paths n
  simp only [GroupsAgree, TalliesAgree, groupsOf, groupsSql, sorted, hkeys,
    (sorting.perm _ _).mem_iff, mem_map]
  constructor
  · rintro ⟨hleft, hright⟩
    refine ⟨fun g hg => ?_, fun h hh => ?_⟩
    · obtain ⟨_, ⟨h, hh, rfl⟩, hsame⟩ := hleft _ ⟨g, hg, rfl⟩
      exact ⟨h, hh, hsame⟩
    · obtain ⟨_, ⟨g, hg, rfl⟩, hsame⟩ := hright _ ⟨h, hh, rfl⟩
      exact ⟨g, hg, hsame⟩
  · rintro ⟨hleft, hright⟩
    refine ⟨?_, ?_⟩
    · rintro _ ⟨g, hg, rfl⟩
      obtain ⟨h, hh, hsame⟩ := hleft g hg
      exact ⟨_, ⟨h, hh, rfl⟩, hsame⟩
    · rintro _ ⟨h, hh, rfl⟩
      obtain ⟨g, hg, hsame⟩ := hright h hh
      exact ⟨_, ⟨g, hg, rfl⟩, hsame⟩

/-- The groups counted in memory are those of the SQL exactly when no two of the objects
have keys that `jsonb` takes for one and memory for two. -/
theorem groups_agree_iff (toString : List (Value D) → String) (sorting : Sorting (Group D))
    (matched : List (ObjectNode D)) (paths : List (List String)) :
    GroupsAgree (groupsOf toString sorting matched paths)
        (groupsSql toString sorting matched paths) ↔
      ∀ a ∈ matched, ∀ b ∈ matched, jsonbEqualKey (keyOf paths a) (keyOf paths b) = true →
          sameKey (keyOf paths a) (keyOf paths b) = true := by
  rw [groupsAgree_iff_tallies,
    talliesAgree_iff jsonbEqualKey_iff sameKey_iff jsonbEqualKey_of_sameKey]
  simp only [forall_mem_map]

/-- Two objects whose field is `1` and `1.0`: in memory two groups of one, in SQL one
group of two. -/
theorem whole_and_fraction_are_two_groups :
    ¬ ∀ (toString : List (Value ℚ) → String) (sorting : Sorting (Group ℚ))
      (matched : List (ObjectNode ℚ)) (paths : List (List String)),
      GroupsAgree (groupsOf toString sorting matched paths)
        (groupsSql toString sorting matched paths) := by
  intro h
  let nodes : List (ObjectNode ℚ) :=
    [⟨"a", .object [("n", .number (.int 1))]⟩, ⟨"b", .object [("n", .number (.float 1))]⟩]
  have hkeys : nodes.map (keyOf [["n"]]) = [[.number (.int 1)], [.number (.float 1)]] := by
    rfl
  have hmemory : countBy sameKey (nodes.map (keyOf [["n"]])) =
      [([.number (.int 1)], 1), ([.number (.float 1)], 1)] := by
    rw [hkeys]
    rfl
  have hsql : countBy jsonbEqualKey (nodes.map (keyOf [["n"]])) = [([.number (.int 1)], 2)] := by
    rw [hkeys]
    rfl
  have hagree := (groupsAgree_iff_tallies _ _ nodes [["n"]]).mp
    (h (fun _ => "") ⟨sortBy, perm_sortBy, fun _ _ => pairwise_sortBy⟩ nodes [["n"]])
  rw [hmemory, hsql] at hagree
  obtain ⟨g, hg, -, hcount⟩ := hagree.1 ([.number (.int 1)], 1) mem_cons_self
  rw [mem_singleton.mp hg] at hcount
  exact absurd hcount (by decide)

end DomainModel
end StudioWeb
