import StudioWeb.DomainModel.QueryFilter
import StudioWeb.Library.CursorPaging
import StudioWeb.Library.SortBy

/-!
# The order of a query and its pages

`by_order`, `select`, `Cursor` and the page of the graph executor of `query.rs`.  A
cursor is the last row's sort values and id, bound to its query; it travels as JSON
text, whose numbers are read again by `parseFloat`.  The next page begins at the first
object that comes after the cursor.

Values of two kinds, lists and objects tie on a key, so the comparison of several
objects need not be an order.
-/

namespace StudioWeb
namespace DomainModel

open JsonValue CursorPaging List Option

universe u

variable {D : Type u}

inductive Direction where
  | asc
  | desc
deriving DecidableEq

abbrev OrderKeys := List (List String × Direction)

section Order

variable [Doubles D]

def sortValues (node : ObjectNode D) (orderBy : OrderKeys) : List (Option (Value D)) :=
  orderBy.map fun key => lookup node key.1

/-- `by_order`: the keys in turn, absent last whichever way a key runs, then the id. -/
def byOrder : OrderKeys → List (Option (Value D)) → String →
    List (Option (Value D)) → String → Ordering
  | (_, dir) :: keys, x :: xs, a, y :: ys, b =>
    match x, y with
    | none, none => byOrder keys xs a ys b
    | none, some _ => .gt
    | some _, none => .lt
    | some x, some y =>
      let ord := (compareValues x y).getD .eq
      let ord := if dir = .desc then ord.swap else ord
      if ord = .eq then byOrder keys xs a ys b else ord
  | _, _, a, _, b => compare a b

/-- One object sorts before another. -/
def precedes (orderBy : OrderKeys) (a b : ObjectNode D) : Bool :=
  byOrder orderBy (sortValues a orderBy) a.instanceId (sortValues b orderBy) b.instanceId == .lt

/-- What of a query decides its rows and their order. `bound` is the digest that its
cursors carry. -/
structure QueryPlan (D : Type u) where
  filter : Option (Expr D)
  orderBy : OrderKeys
  bound : String

/-- What a reading takes from outside: case folding, the sort, the number that a cursor's
text reads back as, and which objects the caller may read. -/
structure Reading (D : Type u) where
  toLowercase : String → String
  sorting : Sorting (ObjectNode D)
  parseFloat : D → D
  retain : ObjectNode D → Bool

def QueryPlan.admits (plan : QueryPlan D) (toLowercase : String → String)
    (node : ObjectNode D) : Bool :=
  plan.filter.all fun e => eval toLowercase e node

/-- `select`: filter and order. -/
def select (reading : Reading D) (plan : QueryPlan D) (nodes : List (ObjectNode D)) :
    List (ObjectNode D) :=
  reading.sorting.sort (precedes plan.orderBy) (nodes.filter (plan.admits reading.toLowercase))

end Order

section Cursor

structure Cursor (D : Type u) where
  keys : List (Option (Value D))
  id : String

/-- The body of an encoded cursor: an absent key is `null`. -/
structure Token (D : Type u) where
  bound : String
  keys : List (Value D)
  id : String

variable [Doubles D]

/-- The place right after an object. -/
def Cursor.at (node : ObjectNode D) (orderBy : OrderKeys) : Cursor D :=
  ⟨sortValues node orderBy, node.instanceId⟩

def Cursor.encode (c : Cursor D) (bound : String) : Token D :=
  ⟨bound, c.keys.map fun v => v.getD .null, c.id⟩

def refusedCursor : String :=
  "`cursor` is not one this query gave out: send back the `next_cursor` " ++
    "of a query with the same `type`, `project_id`, `where` and `order_by`"

def Cursor.decode (parseFloat : D → D) (token : Token D) (bound : String) (keys : Nat) :
    Except String (Cursor D) :=
  let values := token.keys.map fun v => v.mapFloats parseFloat
  if token.bound ≠ bound then
    .error refusedCursor
  else if values.length ≠ keys then
    .error refusedCursor
  else
    .ok ⟨values.map fun v => if v.isNull then none else some v, token.id⟩

/-- The object comes after this place in the query's order. -/
def Cursor.isBefore (c : Cursor D) (node : ObjectNode D) (orderBy : OrderKeys) : Bool :=
  byOrder orderBy (sortValues node orderBy) node.instanceId c.keys c.id == .gt

end Cursor

section Pages

def SCAN_LIMIT : Nat := 5000

def DEFAULT_LIMIT : Nat := 50

def MAX_LIMIT : Nat := 200

/-- `limit.unwrap_or(DEFAULT_LIMIT).clamp(1, MAX_LIMIT)`. -/
def pageLimit (limit : Option Nat) : Nat := min (max (limit.getD DEFAULT_LIMIT) 1) MAX_LIMIT

variable [Doubles D]

/-- `next_of`: a page reads one row past its limit, and if it comes back there is a
next one. -/
def nextOf (plan : QueryPlan D) (limit : Nat) (page : List (ObjectNode D)) :
    List (ObjectNode D) × Option (Token D) :=
  if limit < page.length then
    let page := page.take limit
    (page, page.getLast?.map fun n => (Cursor.at n plan.orderBy).encode plan.bound)
  else
    (page, none)

/-- The objects of the type that the graph executor reads and the caller may see. -/
def readable (retain : ObjectNode D → Bool) (objects : List (ObjectNode D)) : List (ObjectNode D) :=
  ((objects.take (SCAN_LIMIT + 1)).take SCAN_LIMIT).filter retain

/-- One request of `run_with` on the graph, by its limit and cursor. -/
def run (reading : Reading D) (plan : QueryPlan D) (objects : List (ObjectNode D))
    (limit : Option Nat) (cursor : Option (Token D)) :
    Except String (List (ObjectNode D) × Option (Token D)) :=
  let matched := select reading plan (readable reading.retain objects)
  let limit := pageLimit limit
  match cursor with
  | none => .ok (nextOf plan limit (matched.take (limit + 1)))
  | some token =>
    match Cursor.decode reading.parseFloat token plan.bound plan.orderBy.length with
    | .error error => .error error
    | .ok after =>
      let start := (matched.findIdx? fun n => after.isBefore n plan.orderBy).getD
        matched.length
      .ok (nextOf plan limit ((matched.drop start).take (limit + 1)))

/-- Follow `next_cursor` until none is given, for as many pages as there is fuel. -/
def followCursors (reading : Reading D) (plan : QueryPlan D) (objects : List (ObjectNode D))
    (limits : Nat → Option Nat) :
    Nat → Nat → Option (Token D) → Option (List (ObjectNode D))
  | 0, _, _ => none
  | fuel + 1, k, cursor =>
    match run reading plan objects (limits k) cursor with
    | .error _ => none
    | .ok (page, none) => some page
    | .ok (page, some next) =>
      (followCursors reading plan objects limits fuel (k + 1) (some next)).map (page ++ ·)

/-- **Paging is exact**: with any limits, the pages end, and together they are what
`select` gives for the whole set. -/
def PagingExact (reading : Reading D) (plan : QueryPlan D) (objects : List (ObjectNode D)) : Prop :=
  ∀ limits : Nat → Option Nat, ∃ fuel, followCursors reading plan objects limits fuel 0 none =
      some (select reading plan (objects.filter reading.retain))

end Pages

section Facts

variable [Doubles D]

theorem compareValues_swap (x y : Value D) :
    compareValues y x = (compareValues x y).map Ordering.swap := by
  cases x <;> cases y <;> simp only [compareValues, map_none, map_some,
    some.injEq]
  · exact (Std.OrientedCmp.eq_swap)
  · exact (Std.OrientedCmp.eq_swap)
  · exact (Std.OrientedCmp.eq_swap)

theorem byOrder_swap (a b : String) :
    ∀ (keys : OrderKeys) (xs ys : List (Option (Value D))),
      byOrder keys ys b xs a = (byOrder keys xs a ys b).swap
  | [], xs, ys => by
    simp only [byOrder]
    exact Std.OrientedCmp.eq_swap
  | _ :: _, [], ys => by
    cases ys <;> simp only [byOrder] <;> exact Std.OrientedCmp.eq_swap
  | _ :: _, _ :: _, [] => by
    simp only [byOrder]
    exact Std.OrientedCmp.eq_swap
  | (path, dir) :: keys, x :: xs, y :: ys => by
    have ih := byOrder_swap a b keys xs ys
    cases x with
    | none =>
      cases y with
      | none => simpa only [byOrder] using ih
      | some => rfl
    | some x =>
      cases y with
      | none => rfl
      | some y =>
        simp only [byOrder]
        rw [compareValues_swap x y]
        cases compareValues x y with
        | none => cases dir <;> simpa using ih
        | some ord => cases ord <;> cases dir <;> simp [ih]

theorem byOrder_eq {a b : String} :
    ∀ {keys : OrderKeys} {xs ys : List (Option (Value D))}, byOrder keys xs a ys b = .eq → a = b
  | [], _, _, h => by
    simp only [byOrder] at h
    exact compare_eq_iff_eq.mp h
  | _ :: _, [], _, h => by
    simp only [byOrder] at h
    exact compare_eq_iff_eq.mp h
  | _ :: _, _ :: _, [], h => by
    simp only [byOrder] at h
    exact compare_eq_iff_eq.mp h
  | (path, dir) :: keys, x :: xs, y :: ys, h => by
    cases x with
    | none =>
      cases y with
      | none => exact byOrder_eq (by simpa only [byOrder] using h)
      | some => cases h
    | some =>
      cases y with
      | none => cases h
      | some =>
        simp only [byOrder] at h
        split_ifs at h with hdir hord
        · exact byOrder_eq h
        · exact absurd h hord
        · exact byOrder_eq h
        · next hord => exact absurd h hord

end Facts

section Exactness

variable [Doubles D]

/-- An object comes after the cursor of another, as the next request reads it. -/
def past (parseFloat : D → D) (orderBy : OrderKeys) (c x : ObjectNode D) : Bool :=
  Cursor.isBefore
    ⟨(sortValues c orderBy).map (Option.map (Value.mapFloats parseFloat)), c.instanceId⟩ x orderBy

def tokenOf (plan : QueryPlan D) (n : ObjectNode D) : Token D :=
  (Cursor.at n plan.orderBy).encode plan.bound

omit [Doubles D] in
theorem isNull_of_lookup {node : ObjectNode D} {path : List String} {v : Value D}
    (h : lookup node path = some v) : v.isNull = false := by
  unfold lookup at h
  split_ifs at h
  · cases h
    rfl
  · simpa using (filter_eq_some_iff.mp h).2

omit [Doubles D] in
theorem decode_tokenOf (parseFloat : D → D) (plan : QueryPlan D) (n : ObjectNode D) :
    Cursor.decode parseFloat (tokenOf plan n) plan.bound plan.orderBy.length =
      .ok ⟨(sortValues n plan.orderBy).map (Option.map (Value.mapFloats parseFloat)),
        n.instanceId⟩ := by
  have hlength : (tokenOf plan n).keys.length = plan.orderBy.length := by
    simp [tokenOf, Cursor.encode, Cursor.at, sortValues]
  have hbound : (tokenOf plan n).bound = plan.bound := rfl
  simp only [Cursor.decode, length_map, hlength, hbound, ne_eq, not_true_eq_false, if_false]
  congr 1
  congr 1
  simp only [tokenOf, Cursor.encode, Cursor.at, List.map_map]
  refine List.map_congr_left ?_
  intro v hv
  cases v with
  | none => rfl
  | some =>
    obtain ⟨key, _, hkey⟩ := List.mem_map.mp hv
    have hnull := isNull_of_lookup hkey
    simp [Value.isNull_mapFloats, hnull]

theorem run_eq (reading : Reading D) (plan : QueryPlan D) (objects : List (ObjectNode D))
    (limit : Option Nat) (after : Option (ObjectNode D)) :
    run reading plan objects limit (after.map (tokenOf plan)) =
      .ok ((pageAfter (past reading.parseFloat plan.orderBy)
          (select reading plan (readable reading.retain objects)) after
          (pageLimit limit)).map id (Option.map (tokenOf plan))) := by
  have hnext : ∀ page : List (ObjectNode D),
      nextOf plan (pageLimit limit) page = (if pageLimit limit < page.length then
          (page.take (pageLimit limit), (page.take (pageLimit limit)).getLast?)
        else
          (page, none)).map id (Option.map (tokenOf plan)) := by
    intro page
    unfold nextOf
    split_ifs <;> rfl
  cases after with
  | none =>
    simp only [run, map_none, hnext]
    rfl
  | some =>
    simp only [run, map_some, decode_tokenOf, hnext]
    rfl

theorem followCursors_eq (reading : Reading D) (plan : QueryPlan D) (objects : List (ObjectNode D))
    (limits : Nat → Option Nat) :
    ∀ (fuel k : Nat) (after : Option (ObjectNode D)),
      followCursors reading plan objects limits fuel k (after.map (tokenOf plan)) =
        follow (past reading.parseFloat plan.orderBy)
          (select reading plan (readable reading.retain objects))
          (fun k => pageLimit (limits k)) fuel k after
  | 0, _, _ => rfl
  | fuel + 1, k, after => by
    unfold followCursors follow
    rw [run_eq]
    generalize pageAfter _ _ after (pageLimit (limits k)) = page
    obtain ⟨rows, last⟩ := page
    cases last with
    | none => rfl
    | some n =>
      have ih := followCursors_eq reading plan objects limits fuel (k + 1) (some n)
      rw [map_some] at ih
      simp only [Prod.map_apply, id_eq, map_some, ih]

/-- No object past the scan limit is one of the query's rows. -/
def NoneBeyond (reading : Reading D) (plan : QueryPlan D) (objects : List (ObjectNode D)) : Prop :=
  ∀ n ∈ objects.drop SCAN_LIMIT, ¬ (reading.retain n = true ∧
    plan.admits reading.toLowercase n = true)

variable {reading : Reading D} {plan : QueryPlan D} {objects : List (ObjectNode D)}

theorem mem_select {nodes : List (ObjectNode D)} {n : ObjectNode D} :
    n ∈ select reading plan nodes ↔
      n ∈ nodes ∧ plan.admits reading.toLowercase n = true := by
  rw [select, (reading.sorting.perm _ _).mem_iff, mem_filter]

theorem select_readable (h : NoneBeyond reading plan objects) :
    select reading plan (readable reading.retain objects) =
      select reading plan (objects.filter reading.retain) := by
  have hrest : ((objects.drop SCAN_LIMIT).filter reading.retain).filter
      (plan.admits reading.toLowercase) = [] := by
    rw [filter_eq_nil_iff]
    intro n hn hadmits
    obtain ⟨hmem, hretain⟩ := mem_filter.mp hn
    exact h n hmem ⟨hretain, hadmits⟩
  have htake : (objects.take (SCAN_LIMIT + 1)).take SCAN_LIMIT = objects.take SCAN_LIMIT := by
    rw [take_take, Nat.min_eq_left (Nat.le_succ _)]
  unfold select readable
  rw [htake]
  conv_rhs => rw [← take_append_drop SCAN_LIMIT objects, filter_append,
    filter_append, hrest, append_nil]

omit [Doubles D] in
theorem nodup_of_ids {nodes : List (ObjectNode D)}
    (hids : (nodes.map ObjectNode.instanceId).Nodup) : nodes.Nodup :=
  List.Nodup.of_map _ hids

theorem nodup_select (hids : (objects.map ObjectNode.instanceId).Nodup) :
    (select reading plan (objects.filter reading.retain)).Nodup := by
  rw [select, (reading.sorting.perm _ _).nodup_iff]
  exact ((nodup_of_ids hids).filter _).filter _

/-- **When paging is exact.** -/
theorem pagingExact_iff (hids : (objects.map ObjectNode.instanceId).Nodup) :
    PagingExact reading plan objects ↔ NoneBeyond reading plan objects ∧
        InPlace (past reading.parseFloat plan.orderBy)
          (select reading plan (objects.filter reading.retain)) := by
  constructor
  · intro hexact
    obtain ⟨fuel, hfollow⟩ := hexact fun _ => some 1
    have heq := followCursors_eq reading plan objects (fun _ => some 1) fuel 0 none
    rw [map_none, hfollow] at heq
    have hnone : NoneBeyond reading plan objects := by
      rintro n hn ⟨hretain, hadmits⟩
      have hwhole : n ∈ select reading plan (objects.filter reading.retain) :=
        mem_select.mpr ⟨mem_filter.mpr ⟨mem_of_mem_drop hn, hretain⟩, hadmits⟩
      have hread := (mem_select.mp (mem_of_follow heq.symm n hwhole)).1
      have htake : n ∈ objects.take SCAN_LIMIT := by
        have := mem_of_mem_filter hread
        rwa [take_take, Nat.min_eq_left (Nat.le_succ _)] at this
      have hnodup := nodup_of_ids hids
      rw [← take_append_drop SCAN_LIMIT objects] at hnodup
      exact (nodup_append.mp hnodup).2.2 n htake n hn rfl
    rw [select_readable hnone] at heq
    exact ⟨hnone, inPlace_of_follow (nodup_select hids) heq.symm⟩
  · rintro ⟨hnone, hplace⟩ limits
    refine ⟨(select reading plan (objects.filter reading.retain)).length + 1, ?_⟩
    have heq := followCursors_eq reading plan objects limits
      ((select reading plan (objects.filter reading.retain)).length + 1) 0 none
    rw [map_none, select_readable hnone] at heq
    rw [heq]
    refine follow_exact ?_ hplace
    intro k
    unfold pageLimit MAX_LIMIT
    omega

def TransitiveOn (orderBy : OrderKeys) (nodes : List (ObjectNode D)) : Prop :=
  ∀ a ∈ nodes, ∀ b ∈ nodes, ∀ c ∈ nodes,
    precedes orderBy a b = true → precedes orderBy b c = true → precedes orderBy a c = true

/-- The numbers that some objects sort by are read back from a cursor as they were. -/
def SurviveCursor (parseFloat : D → D) (orderBy : OrderKeys) (nodes : List (ObjectNode D)) : Prop :=
  ∀ n ∈ nodes, (sortValues n orderBy).map (Option.map (Value.mapFloats parseFloat)) =
    sortValues n orderBy

theorem past_eq {parseFloat : D → D} {orderBy : OrderKeys} {c x : ObjectNode D}
    (hc : (sortValues c orderBy).map (Option.map (Value.mapFloats parseFloat)) =
      sortValues c orderBy) :
    past parseFloat orderBy c x = precedes orderBy c x := by
  rw [past, Cursor.isBefore, precedes, hc, byOrder_swap]
  cases byOrder orderBy (sortValues c orderBy) c.instanceId (sortValues x orderBy)
    x.instanceId <;> rfl

/-- **An order pages exactly**: the comparison is transitive on the rows, and their
numbers survive the cursor. -/
theorem inPlace_of_transitive (hids : (objects.map ObjectNode.instanceId).Nodup)
    (htrans : TransitiveOn plan.orderBy (select reading plan (objects.filter reading.retain)))
    (hsurvive : SurviveCursor reading.parseFloat plan.orderBy
      (select reading plan (objects.filter reading.retain))) :
    InPlace (past reading.parseFloat plan.orderBy)
      (select reading plan (objects.filter reading.retain)) := by
  have hswap : ∀ a b : ObjectNode D, precedes plan.orderBy a b = true →
      precedes plan.orderBy b a = false := by
    intro a b hab
    unfold precedes at hab ⊢
    rw [byOrder_swap]
    rw [beq_iff_eq] at hab
    rw [hab]
    rfl
  have hself : ∀ a : ObjectNode D, precedes plan.orderBy a a = false := by
    intro a
    by_contra h
    have htrue : precedes plan.orderBy a a = true := by simpa using h
    have hfalse := hswap a a htrue
    rw [htrue] at hfalse
    cases hfalse
  have hmem : ∀ n, n ∈ (objects.filter reading.retain).filter (plan.admits reading.toLowercase) ↔
        n ∈ select reading plan (objects.filter reading.retain) := by
    intro n
    rw [mem_select, mem_filter]
  have horders : OrdersOn (precedes plan.orderBy)
      ((objects.filter reading.retain).filter (plan.admits reading.toLowercase)) := by
    refine ⟨?_, ?_⟩
    · intro a ha b hb c hc
      exact htrans a ((hmem a).mp ha) b ((hmem b).mp hb) c ((hmem c).mp hc)
    · intro a ha b hb hne
      have hid : a.instanceId ≠ b.instanceId := by
        intro heq
        have ha' := mem_of_mem_filter (mem_of_mem_filter ha)
        have hb' := mem_of_mem_filter (mem_of_mem_filter hb)
        exact hne (inj_on_of_nodup_map hids ha' hb' heq)
      unfold precedes
      rw [byOrder_swap a.instanceId b.instanceId]
      cases hord : byOrder plan.orderBy (sortValues a plan.orderBy) a.instanceId
          (sortValues b plan.orderBy) b.instanceId with
      | eq => exact absurd (byOrder_eq hord) hid
      | lt => exact Or.inl rfl
      | gt => exact Or.inr rfl
  have hsorted := reading.sorting.sorted _ _ horders (((nodup_of_ids hids).filter _).filter _)
  refine inPlace_of_pairwise ?_ ?_
  · intro a ha
    rw [past_eq (hsurvive a ha)]
    exact hself a
  · refine hsorted.imp_of_mem ?_
    intro a b ha hb hab
    rw [past_eq (hsurvive a ha), past_eq (hsurvive b hb)]
    exact ⟨hab, hswap a b hab⟩

end Exactness

private def row (id : String) (size : Value ℚ) : ObjectNode ℚ :=
  ⟨id, .object [("size", size)]⟩

private def bySize : QueryPlan ℚ := ⟨none, [(["size"], .asc)], ""⟩

private def reading : Reading ℚ := ⟨id, insertionSorting, id, fun _ => true⟩

/-- A list ties with a number and with a string, so the cursor of the third row of
these four finds the first row after it. -/
private def mixed : List (ObjectNode ℚ) :=
  [row "a" (.number (.int 2)), row "b" (.string "s"), row "c" (.number (.int 1)),
    row "d" (.array [])]

private def sizes : List (ObjectNode ℚ) :=
  [row "a" (.number (.int 2)), row "b" (.number (.int 1))]

end DomainModel
end StudioWeb
