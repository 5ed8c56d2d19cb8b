import StudioWeb.DomainModel.QueryFilter
import StudioWeb.Library.Conditions

/-!
# The filter of a query as SQL

`Sql::eq`, `ordered`, `any_of`, `expr` and `condition` of `query/sql.rs`, as terms of
the SQL operators that their text uses, and what these terms say of a row of
`studio_domain_objects`: true, false or unknown.  The bound parameters stand in the
terms.  A cast is given a meaning on the kind of value that the `CASE` around it
admits; a cast outside of its kind is an error.

Equality of `jsonb` compares numbers by their value, also inside lists and objects,
where equality in memory keeps `1` and `1.0` apart.
-/

namespace StudioWeb
namespace DomainModel

open JsonValue List Option

universe u

variable {D : Type u}

/-- A `jsonb` operand: the id, a path into the payload, or the element of a list. -/
inductive Operand where
  | id
  | payload (path : List String)
  | element

inductive Comparison where
  | eq
  | gt
  | gte
  | lt
  | lte

/-- The SQL of a condition, with its parameters. -/
inductive Sql (D : Type u) where
  | bool (b : Bool)
  | typeofIs (v : Operand) (kind : String)
  | typeofNull (v : Operand)
  | number (v : Operand) (c : Comparison) (p : D)
  | text (v : Operand) (c : Comparison) (p : String)
  | boolean (v : Operand) (c : Comparison) (p : Bool)
  | jsonb (v : Operand) (p : Value D)
  | strpos (v : Operand) (p : String)
  | anyElement (v : Operand) (member : Sql D)
  | and (a b : Sql D)
  | or (a b : Sql D)
  | not (a : Sql D)
  | case (test body otherwise : Sql D)
  | coalesce (a : Sql D)

section Build

variable [Doubles D]

def valueAt (path : List String) : Operand :=
  if path = ["id"] then .id else .payload path

/-- `CASE WHEN jsonb_typeof(v) = kind THEN body ELSE FALSE END`. -/
def caseKind (v : Operand) (kind : String) (body : Sql D) : Sql D :=
  .case (.typeofIs v kind) body (.bool false)

/-- `Sql::eq`. -/
def sqlEq (v : Operand) (arg : Value D) : Sql D :=
  match arg with
  | .number n => caseKind v "number" (.number v .eq n.asF64)
  | .string s => caseKind v "string" (.text v .eq s)
  | .bool b => caseKind v "boolean" (.boolean v .eq b)
  | .null => .bool false
  | .array _ => .jsonb v arg
  | .object _ => .jsonb v arg

/-- `Sql::ordered`. -/
def sqlOrdered (v : Operand) (c : Comparison) (arg : Value D) : Sql D :=
  match arg with
  | .number n => caseKind v "number" (.number v c n.asF64)
  | .string s => caseKind v "string" (.text v c s)
  | .bool b => caseKind v "boolean" (.boolean v c b)
  | _ => .bool false

/-- Conditions joined by `OR`; there is none for an empty list. -/
def disjunction (parts : List (Sql D)) : Sql D :=
  match parts with
  | [] => .bool false
  | c :: rest => rest.foldl .or c

def conjunctionOf (parts : List (Sql D)) : Sql D :=
  match parts with
  | [] => .bool true
  | c :: rest => rest.foldl .and c

/-- `Sql::any_of`. -/
def sqlAnyOf (v : Operand) (arg : Value D) : Sql D :=
  disjunction ((arg.array?.getD []).map (sqlEq v))

def absent (v : Operand) : Sql D := .or (.typeofNull v) (.typeofIs v "null")

def sqlBody (v : Operand) (op : Op) (arg : Value D) : Sql D :=
  match op with
  | .isNull => if arg.bool?.getD true then absent v else .not (absent v)
  | .eq => sqlEq v arg
  | .neq => .and (.not (absent v)) (.not (sqlEq v arg))
  | .gt => sqlOrdered v .gt arg
  | .gte => sqlOrdered v .gte arg
  | .lt => sqlOrdered v .lt arg
  | .lte => sqlOrdered v .lte arg
  | .«in» => sqlAnyOf v arg
  | .nin => .and (.not (absent v)) (.not (sqlAnyOf v arg))
  | .contains =>
    let inList := caseKind v "array" (.anyElement v (sqlEq .element arg))
    match arg with
    | .string s => .case (.typeofIs v "string") (.strpos v s) inList
    | _ => inList

def sqlCmp (c : Cmp D) : Sql D := .coalesce (sqlBody (valueAt c.path) c.op c.arg)

mutual

/-- `Sql::expr`. -/
def sqlExpr : Expr D → Sql D
  | .and list => conjunctionOf (sqlExprs list)
  | .or list => disjunction (sqlExprs list)
  | .not e => .not (sqlExpr e)
  | .cmp c => sqlCmp c

def sqlExprs : List (Expr D) → List (Sql D)
  | [] => []
  | e :: rest => sqlExpr e :: sqlExprs rest

end

end Build

section Denote

/-- `jsonb_typeof`. -/
def kindOf : Value D → String
  | .null => "null"
  | .bool _ => "boolean"
  | .number _ => "number"
  | .string _ => "string"
  | .array _ => "array"
  | .object _ => "object"

def Comparison.test : Comparison → Ordering → Bool
  | .eq, ord => ord == .eq
  | .gt, ord => ord == .gt
  | .gte, ord => ord == .gt || ord == .eq
  | .lt, ord => ord == .lt
  | .lte, ord => ord == .lt || ord == .eq

/-- The value of an operand on a row; `none` is `NULL`. -/
def Operand.value (row : ObjectNode D) (element : Option (Value D)) :
    Operand → Option (Value D)
  | .id => some (.string row.instanceId)
  | .payload path => path.foldlM Value.get? row.value
  | .element => element

variable [Doubles D]

/-- Equality of `jsonb`. -/
def jsonbEqual (a b : Value D) : Bool := a.sameBy (fun x y => decide (x.numeric = y.numeric)) b

/-- What a condition says of a row, or the operand that was cast out of its kind. -/
def denote (lower : String → String) (row : ObjectNode D) :
    Sql D → Option (Value D) → Except Operand Truth
  | .bool b, _ => .ok (some b)
  | .typeofIs v kind, x => .ok ((v.value row x).map fun a => kindOf a == kind)
  | .typeofNull v, x => .ok (some (v.value row x).isNone)
  | .number v c p, x =>
    match v.value row x with
    | none => .ok none
    | some (.number n) => .ok (some (c.test (compare (Doubles.ofNumeric n.numeric) p)))
    | some _ => .error v
  | .text v c p, x =>
    match v.value row x with
    | none => .ok none
    | some (.string s) => .ok (some (c.test (compare s p)))
    | some _ => .error v
  | .boolean v c p, x =>
    match v.value row x with
    | none => .ok none
    | some (.bool b) => .ok (some (c.test (compare b p)))
    | some _ => .error v
  | .jsonb v p, x => .ok ((v.value row x).map fun a => jsonbEqual a p)
  | .strpos v p, x =>
    match v.value row x with
    | none => .ok none
    | some (.string s) => .ok (some (decide ((lower p).toList <:+: (lower s).toList)))
    | some _ => .error v
  | .anyElement v member, x =>
    match v.value row x with
    | none => .ok (some false)
    | some (.array items) =>
      (items.mapM fun i => denote lower row member (some i)).map fun truths =>
        some (truths.any fun t => t == some true)
    | some _ => .error v
  | .and a b, x =>
    match denote lower row a x, denote lower row b x with
    | .ok t, .ok u => .ok (t.and u)
    | .error e, _ => .error e
    | _, .error e => .error e
  | .or a b, x =>
    match denote lower row a x, denote lower row b x with
    | .ok t, .ok u => .ok (t.or u)
    | .error e, _ => .error e
    | _, .error e => .error e
  | .not a, x => (denote lower row a x).map Truth.not
  | .case test body otherwise, x =>
    match denote lower row test x with
    | .ok (some true) => denote lower row body x
    | .ok _ => denote lower row otherwise x
    | .error e => .error e
  | .coalesce a, x => (denote lower row a x).map Truth.coalesce

def condition (lower : String → String) (e : Expr D) (row : ObjectNode D) : Except Operand Truth :=
  denote lower row (sqlExpr e) none

end Denote

section Equality

attribute [local simp] denote

variable [Doubles D]

def equalSql (x a : Value D) : Bool :=
  if a.isCompound then jsonbEqual x a else !a.isNull && equal x a

variable {lower : String → String} {row : ObjectNode D} {v : Operand}
variable {element : Option (Value D)}

variable {x : Value D}

theorem denote_caseKind {kind : String} {body : Sql D} (hv : v.value row element = some x) :
    denote lower row (caseKind v kind body) element =
      if kindOf x = kind then denote lower row body element else .ok (some false) := by
  simp only [caseKind, denote, hv, map_some]
  by_cases hkind : kindOf x = kind
  · simp [hkind]
  · simp [hkind]

theorem denote_caseKind_null {kind : String} {body : Sql D} (hv : v.value row element = none) :
    denote lower row (caseKind v kind body) element = .ok (some false) := by
  simp [caseKind, hv]

theorem eq_test (ord : Ordering) : Comparison.test .eq ord = ord.isEq := by
  cases ord <;> rfl

theorem denote_and {a b : Sql D} {t u : Truth} (ha : denote lower row a element = .ok t)
    (hb : denote lower row b element = .ok u) :
    denote lower row (.and a b) element = .ok (t.and u) := by
  simp only [denote, ha, hb]

theorem denote_or {a b : Sql D} {t u : Truth} (ha : denote lower row a element = .ok t)
    (hb : denote lower row b element = .ok u) :
    denote lower row (.or a b) element = .ok (t.or u) := by
  simp only [denote, ha, hb]

theorem denote_not {a : Sql D} {t : Truth} (ha : denote lower row a element = .ok t) :
    denote lower row (.not a) element = .ok t.not := by
  simp only [denote, ha, Except.map]

theorem denote_sqlEq (a : Value D) (hv : v.value row element = some x) :
    denote lower row (sqlEq v a) element = .ok (some (equalSql x a)) := by
  cases a with
  | null => rfl
  | array => simp [sqlEq, hv, equalSql, Value.isCompound]
  | object => simp [sqlEq, hv, equalSql, Value.isCompound]
  | bool =>
    simp only [sqlEq, denote_caseKind hv]
    cases x <;>
      simp [kindOf, hv, equalSql, Value.isCompound, Value.isNull, equal,
        compareValues, sameValue, Value.sameBy, eq_test]
  | number =>
    simp only [sqlEq, denote_caseKind hv]
    cases x <;>
      simp [kindOf, hv, equalSql, Value.isCompound, Value.isNull, equal,
        compareValues, sameValue, Value.sameBy, eq_test, Number.ofNumeric_numeric]
  | string =>
    simp only [sqlEq, denote_caseKind hv]
    cases x <;>
      simp [kindOf, hv, equalSql, Value.isCompound, Value.isNull, equal,
        compareValues, sameValue, Value.sameBy, eq_test]

theorem denote_sqlEq_null (lower : String → String) (a : Value D)
    (hv : v.value row element = none) :
    ∃ t, denote lower row (sqlEq v a) element = .ok t ∧ t.getD false = false := by
  cases a with
  | null => exact ⟨some false, rfl, rfl⟩
  | bool => exact ⟨some false, denote_caseKind_null hv, rfl⟩
  | number => exact ⟨some false, denote_caseKind_null hv, rfl⟩
  | string => exact ⟨some false, denote_caseKind_null hv, rfl⟩
  | array => exact ⟨none, by simp [sqlEq, hv], rfl⟩
  | object => exact ⟨none, by simp [sqlEq, hv], rfl⟩

theorem equalSql_null (a : Value D) : equalSql .null a = false := by
  cases a <;>
    simp [equalSql, Value.isCompound, Value.isNull, jsonbEqual, equal, compareValues,
      sameValue, Value.sameBy]

theorem denote_sqlOrdered (c : Comparison) (a : Value D) (hv : v.value row element = some x) :
    denote lower row (sqlOrdered v c a) element =
      .ok (some ((compareValues x a).any c.test)) := by
  cases a <;>
    simp only [sqlOrdered, denote_caseKind hv] <;>
    cases x <;>
    simp [kindOf, hv, compareValues, Number.ofNumeric_numeric]

theorem denote_sqlOrdered_null (c : Comparison) (a : Value D) (hv : v.value row element = none) :
    denote lower row (sqlOrdered v c a) element = .ok (some false) := by
  cases a with
  | number => exact denote_caseKind_null hv
  | string => exact denote_caseKind_null hv
  | bool => exact denote_caseKind_null hv
  | null => rfl
  | array => rfl
  | object => rfl

end Equality

section Bodies

variable [Doubles D]
variable {lower : String → String} {row : ObjectNode D} {v : Operand}
variable {element : Option (Value D)}

variable {x : Value D}

theorem denote_foldl_or (hv : v.value row element = some x) :
    ∀ (items : List (Value D)) (acc : Sql D) (b : Bool),
      denote lower row acc element = .ok (some b) →
      denote lower row ((items.map (sqlEq v)).foldl .or acc) element =
        .ok (some (b || items.any (equalSql x)))
  | [], acc, b, hacc => by simpa using hacc
  | a :: items, acc, b, hacc => by
    have hor : denote lower row (.or acc (sqlEq v a)) element = .ok (some (b || equalSql x a)) := by
      rw [denote_or hacc (denote_sqlEq a hv), Truth.or_definite]
    rw [map_cons, foldl_cons, denote_foldl_or hv items _ _ hor, any_cons,
      Bool.or_assoc]

theorem denote_foldl_or_null (hv : v.value row element = none) :
    ∀ (items : List (Value D)) (acc : Sql D),
      (∃ t, denote lower row acc element = .ok t ∧ t.getD false = false) →
      ∃ t, denote lower row ((items.map (sqlEq v)).foldl .or acc) element = .ok t ∧
        t.getD false = false
  | [], acc, hacc => by simpa using hacc
  | a :: items, acc, hacc => by
    obtain ⟨t, ht, hfalse⟩ := hacc
    obtain ⟨u, hu, hfalse'⟩ := denote_sqlEq_null lower a hv
    refine denote_foldl_or_null hv items _ ⟨t.or u, denote_or ht hu, ?_⟩
    rw [Truth.coalesce_or, hfalse, hfalse', Bool.or_self]

theorem denote_sqlAnyOf (arg : Value D) (hv : v.value row element = some x) :
    denote lower row (sqlAnyOf v arg) element =
      .ok (some ((arg.array?.getD []).any (equalSql x))) := by
  unfold sqlAnyOf disjunction
  cases arg.array?.getD [] with
  | nil => rfl
  | cons a items =>
    rw [map_cons, denote_foldl_or hv items _ _ (denote_sqlEq a hv), any_cons]

theorem denote_sqlAnyOf_null (lower : String → String) (arg : Value D)
    (hv : v.value row element = none) :
    ∃ t, denote lower row (sqlAnyOf v arg) element = .ok t ∧ t.getD false = false := by
  unfold sqlAnyOf disjunction
  cases arg.array?.getD [] with
  | nil => exact ⟨some false, rfl, rfl⟩
  | cons a items => exact denote_foldl_or_null hv items _ (denote_sqlEq_null lower a hv)

theorem mapM_sqlEq (arg : Value D) :
    ∀ items : List (Value D), (items.mapM fun i => denote lower row (sqlEq .element arg) (some i)) =
        .ok (items.map fun i => some (equalSql i arg))
  | [] => rfl
  | i :: items => by
    have hi : denote lower row (sqlEq .element arg) (some i) =
        .ok (some (equalSql i arg)) := denote_sqlEq arg rfl
    rw [mapM_cons, hi, mapM_sqlEq arg items]
    rfl

theorem denote_absent (lower : String → String) (row : ObjectNode D) (element : Option (Value D))
    (v : Operand) :
    denote lower row (absent v) element =
      .ok (some ((v.value row element).all Value.isNull)) := by
  cases hv : v.value row element with
  | none => simp [absent, denote, hv, Truth.or]
  | some x => cases x <;> simp [absent, denote, hv, kindOf, Value.isNull]

theorem denote_anyElement (lower : String → String) (arg : Value D)
    (hv : v.value row element = some x) :
    denote lower row (caseKind v "array" (.anyElement v (sqlEq .element arg))) element =
      .ok (some (match x with
        | .array items => items.any fun i => equalSql i arg
        | _ => false)) := by
  rw [denote_caseKind hv]
  cases x with
  | array =>
    simp only [kindOf, if_true, denote, hv, mapM_sqlEq]
    simp [Except.map, List.any_map, Function.comp_def]
  | null => simp [kindOf]
  | bool => simp [kindOf]
  | number => simp [kindOf]
  | string => simp [kindOf]
  | object => simp [kindOf]

theorem denote_contains (arg : Value D) (hv : v.value row element = some x) :
    denote lower row (sqlBody v .contains arg) element =
      .ok (some (meets equalSql lower .contains x arg)) := by
  have hlist := denote_anyElement lower arg hv
  cases arg with
  | string =>
    simp only [sqlBody, denote, hv, map_some]
    cases x <;>
      simp only [kindOf, beq_self_eq_true, meets, hlist] <;>
      simp
  | null => cases x <;> simp only [sqlBody, hlist, meets]
  | bool => cases x <;> simp only [sqlBody, hlist, meets]
  | number => cases x <;> simp only [sqlBody, hlist, meets]
  | array => cases x <;> simp only [sqlBody, hlist, meets]
  | object => cases x <;> simp only [sqlBody, hlist, meets]

theorem any_test (ord : Option Ordering) :
    ord.any (Comparison.test .gt) = (ord == some .gt) ∧
      ord.any (Comparison.test .gte) = (ord == some .gt || ord == some .eq) ∧
      ord.any (Comparison.test .lt) = (ord == some .lt) ∧
      ord.any (Comparison.test .lte) = (ord == some .lt || ord == some .eq) := by
  cases ord with
  | none => exact ⟨rfl, rfl, rfl, rfl⟩
  | some o => cases o <;> exact ⟨rfl, rfl, rfl, rfl⟩

theorem denote_sqlBody (op : Op) (arg : Value D) (hv : v.value row element = some x)
    (hx : x.isNull = false) (hop : op ≠ .isNull) :
    denote lower row (sqlBody v op arg) element =
      .ok (some (meets equalSql lower op x arg)) := by
  have hpresent : denote lower row (.not (absent v)) element = .ok (some true) := by
    rw [denote_not (denote_absent lower row element v), hv, all_some, hx]
    rfl
  obtain ⟨hgt, hgte, hlt, hlte⟩ := any_test (compareValues x arg)
  cases op with
  | eq => exact denote_sqlEq arg hv
  | neq =>
    rw [sqlBody, denote_and hpresent (denote_not (denote_sqlEq arg hv)), meets]
    simp
  | gt => rw [sqlBody, denote_sqlOrdered _ arg hv, hgt, meets]
  | gte => rw [sqlBody, denote_sqlOrdered _ arg hv, hgte, meets]
  | lt => rw [sqlBody, denote_sqlOrdered _ arg hv, hlt, meets]
  | lte => rw [sqlBody, denote_sqlOrdered _ arg hv, hlte, meets]
  | «in» => rw [sqlBody, denote_sqlAnyOf arg hv, meets]
  | nin =>
    rw [sqlBody, denote_and hpresent (denote_not (denote_sqlAnyOf arg hv)), meets]
    simp
  | contains => exact denote_contains arg hv
  | isNull => exact absurd rfl hop

/-- A comparison and the test for presence say no of a field that is not there, whatever
the comparison says. -/
theorem denote_notAbsent_and {lower : String → String} {body : Sql D} {t : Truth}
    (hv : (v.value row element).all Value.isNull = true)
    (hbody : denote lower row body element = .ok t) :
    denote lower row (.and (.not (absent v)) body) element = .ok (some false) := by
  have hnot : denote lower row (.not (absent v)) element = .ok (some false) := by
    rw [denote_not (denote_absent lower row element v), hv]
    rfl
  rw [denote_and hnot hbody, Truth.false_and]

variable (lower : String → String) (op : Op) (arg : Value D)

theorem denote_sqlBody_missing (hvalue : v.value row element = none) (hop : op ≠ .isNull) :
    ∃ t, denote lower row (sqlBody v op arg) element = .ok t ∧ t.getD false = false := by
  have hv : (v.value row element).all Value.isNull = true := by
    rw [hvalue]
    rfl
  have hinList : denote lower row
      (caseKind v "array" (.anyElement v (sqlEq .element arg))) element = .ok (some false) :=
    denote_caseKind_null hvalue
  cases op with
  | eq => exact denote_sqlEq_null lower arg hvalue
  | neq =>
    obtain ⟨t, ht, _⟩ := denote_sqlEq_null lower arg hvalue
    exact ⟨_, denote_notAbsent_and hv (denote_not ht), rfl⟩
  | gt => exact ⟨_, denote_sqlOrdered_null _ arg hvalue, rfl⟩
  | gte => exact ⟨_, denote_sqlOrdered_null _ arg hvalue, rfl⟩
  | lt => exact ⟨_, denote_sqlOrdered_null _ arg hvalue, rfl⟩
  | lte => exact ⟨_, denote_sqlOrdered_null _ arg hvalue, rfl⟩
  | «in» => exact denote_sqlAnyOf_null lower arg hvalue
  | nin =>
    obtain ⟨t, ht, _⟩ := denote_sqlAnyOf_null lower arg hvalue
    exact ⟨_, denote_notAbsent_and hv (denote_not ht), rfl⟩
  | contains =>
    cases arg with
    | string =>
      refine ⟨some false, ?_, rfl⟩
      simp only [sqlBody, denote, hvalue, map_none]
      exact hinList
    | null => exact ⟨_, hinList, rfl⟩
    | bool => exact ⟨_, hinList, rfl⟩
    | number => exact ⟨_, hinList, rfl⟩
    | array => exact ⟨_, hinList, rfl⟩
    | object => exact ⟨_, hinList, rfl⟩
  | isNull => exact absurd rfl hop

theorem denote_sqlBody_null (hvalue : v.value row element = some .null) (hop : op ≠ .isNull) :
    ∃ t, denote lower row (sqlBody v op arg) element = .ok t ∧ t.getD false = false := by
  have hv : (v.value row element).all Value.isNull = true := by
    rw [hvalue]
    rfl
  have hnone : compareValues .null arg = none := by cases arg <;> rfl
  cases op with
  | eq => exact ⟨_, denote_sqlEq arg hvalue, by rw [equalSql_null]; rfl⟩
  | neq => exact ⟨_, denote_notAbsent_and hv (denote_not (denote_sqlEq arg hvalue)), rfl⟩
  | gt => exact ⟨_, denote_sqlOrdered _ arg hvalue, by rw [hnone]; rfl⟩
  | gte => exact ⟨_, denote_sqlOrdered _ arg hvalue, by rw [hnone]; rfl⟩
  | lt => exact ⟨_, denote_sqlOrdered _ arg hvalue, by rw [hnone]; rfl⟩
  | lte => exact ⟨_, denote_sqlOrdered _ arg hvalue, by rw [hnone]; rfl⟩
  | «in» =>
    refine ⟨_, denote_sqlAnyOf arg hvalue, ?_⟩
    simp [equalSql_null]
  | nin => exact ⟨_, denote_notAbsent_and hv (denote_not (denote_sqlAnyOf arg hvalue)), rfl⟩
  | contains => exact ⟨_, denote_contains arg hvalue, by cases arg <;> rfl⟩
  | isNull => exact absurd rfl hop

/-- What a comparison says of a missing field, or of one that is `null`. -/
theorem denote_sqlBody_absent
    (hv : (v.value row element).all Value.isNull = true) (hop : op ≠ .isNull) :
    ∃ t, denote lower row (sqlBody v op arg) element = .ok t ∧ t.getD false = false := by
  cases hvalue : v.value row element with
  | none => exact denote_sqlBody_missing lower op arg hvalue hop
  | some x =>
    rw [hvalue, all_some] at hv
    have hx : x = .null := by
      cases x <;> simp_all [Value.isNull]
    subst hx
    exact denote_sqlBody_null lower op arg hvalue hop

omit [Doubles D] in
theorem lookup_eq (node : ObjectNode D) (path : List String) :
    lookup node path = ((valueAt path).value node none).filter fun a => !a.isNull := by
  unfold lookup valueAt
  split_ifs
  · rfl
  · rfl

theorem denote_sqlCmp (lower : String → String) (c : Cmp D) (node : ObjectNode D) :
    denote lower node (sqlCmp c) none = .ok (some (evalCmp equalSql lower c node)) := by
  obtain ⟨path, op, arg⟩ := c
  have hcoalesce : ∀ t, denote lower node (sqlBody (valueAt path) op arg) none = .ok t →
      denote lower node (sqlCmp ⟨path, op, arg⟩) none = .ok (some (t.getD false)) := by
    intro t ht
    simp only [sqlCmp, denote, ht, Except.map, Truth.coalesce]
  simp only [evalCmp, lookup_eq]
  by_cases hop : op = .isNull
  · subst hop
    rw [if_pos rfl]
    have hisNone : (((valueAt path).value node none).filter fun a => !a.isNull).isNone =
        ((valueAt path).value node none).all Value.isNull := by
      cases (valueAt path).value node none with
      | none => rfl
      | some x => cases hx : x.isNull <;> simp [Option.filter, hx]
    rw [hisNone]
    have habsent := denote_absent lower node none (valueAt path)
    cases hb : arg.bool?.getD true with
    | true =>
      rw [hcoalesce _ (by rw [sqlBody, hb, if_pos rfl]; exact habsent)]
      simp
    | false =>
      rw [hcoalesce _ (by
        rw [sqlBody, hb, if_neg (by decide)]
        exact denote_not habsent)]
      simp
  · rw [if_neg hop]
    cases habsent : ((valueAt path).value node none).all Value.isNull with
    | true =>
      obtain ⟨t, ht, hfalse⟩ := denote_sqlBody_absent lower op arg habsent hop
      rw [hcoalesce t ht, hfalse]
      cases hvalue : (valueAt path).value node none with
      | none => rfl
      | some =>
        rw [hvalue, all_some] at habsent
        simp [Option.filter, habsent]
    | false =>
      cases hvalue : (valueAt path).value node none with
      | none =>
        rw [hvalue] at habsent
        cases habsent
      | some =>
        rw [hvalue, all_some] at habsent
        rw [hcoalesce _ (denote_sqlBody op arg hvalue habsent hop)]
        simp [Option.filter, habsent]

end Bodies

section Expressions

variable [Doubles D]

theorem denote_foldl_and {lower : String → String} {row : ObjectNode D} {cmp : Cmp D → Bool} :
    ∀ (list : List (Expr D)) (acc : Sql D) (b : Bool), denote lower row acc none = .ok (some b) →
      (∀ e ∈ list, denote lower row (sqlExpr e) none = .ok (some (evalWith cmp e))) →
      denote lower row ((sqlExprs list).foldl .and acc) none = .ok (some (b && evalAll cmp list))
  | [], acc, b, hacc, _ => by simpa [sqlExprs, evalAll] using hacc
  | e :: rest, acc, b, hacc, h => by
    have hand := denote_and hacc (h e mem_cons_self)
    rw [Truth.and_definite] at hand
    rw [sqlExprs, foldl_cons,
      denote_foldl_and rest _ _ hand fun e' he' => h e' (mem_cons_of_mem _ he'),
      evalAll, Bool.and_assoc]

theorem denote_foldl_or_exprs {lower : String → String} {row : ObjectNode D} {cmp : Cmp D → Bool} :
    ∀ (list : List (Expr D)) (acc : Sql D) (b : Bool), denote lower row acc none = .ok (some b) →
      (∀ e ∈ list, denote lower row (sqlExpr e) none = .ok (some (evalWith cmp e))) →
      denote lower row ((sqlExprs list).foldl .or acc) none = .ok (some (b || evalAny cmp list))
  | [], acc, b, hacc, _ => by simpa [sqlExprs, evalAny] using hacc
  | e :: rest, acc, b, hacc, h => by
    have hor := denote_or hacc (h e mem_cons_self)
    rw [Truth.or_definite] at hor
    rw [sqlExprs, foldl_cons,
      denote_foldl_or_exprs rest _ _ hor fun e' he' => h e' (mem_cons_of_mem _ he'),
      evalAny, Bool.or_assoc]

mutual

/-- **The condition is definite**: no cast in it fails and it is never unknown. -/
theorem denote_sqlExpr (lower : String → String) (node : ObjectNode D) :
    ∀ e : Expr D, denote lower node (sqlExpr e) none =
      .ok (some (evalWith (fun c => evalCmp equalSql lower c node) e))
  | .cmp c => by
    rw [sqlExpr, evalWith]
    exact denote_sqlCmp lower c node
  | .not e => by
    rw [sqlExpr, evalWith, denote_not (denote_sqlExpr lower node e), Truth.not_definite]
  | .and list => by
    have hparts := denote_sqlExprs lower node list
    rw [sqlExpr, evalWith]
    cases list with
    | nil => rfl
    | cons e rest =>
      rw [sqlExprs, conjunctionOf, denote_foldl_and rest _ _
        (hparts e mem_cons_self) fun e' he' => hparts e' (mem_cons_of_mem _ he'),
        evalAll]
  | .or list => by
    have hparts := denote_sqlExprs lower node list
    rw [sqlExpr, evalWith]
    cases list with
    | nil => rfl
    | cons e rest =>
      rw [sqlExprs, disjunction, denote_foldl_or_exprs rest _ _
        (hparts e mem_cons_self) fun e' he' => hparts e' (mem_cons_of_mem _ he'),
        evalAny]

theorem denote_sqlExprs (lower : String → String) (node : ObjectNode D) :
    ∀ list : List (Expr D), ∀ e ∈ list, denote lower node (sqlExpr e) none =
      .ok (some (evalWith (fun c => evalCmp equalSql lower c node) e))
  | [], e, he => by cases he
  | e :: rest, e', he' => by
    rcases mem_cons.mp he' with heq | he'
    · rw [heq]
      exact denote_sqlExpr lower node e
    · exact denote_sqlExprs lower node rest e' he'

end

end Expressions

section Agreement

variable [Doubles D]

/-- Lists or objects that are equal but for the form of their numbers. -/
def differsInForm (x a : Value D) : Bool := a.isCompound && jsonbEqual x a && !sameValue x a

theorem sameValue_jsonbEqual {a b : Value D} (h : sameValue a b = true) :
    jsonbEqual a b = true := by
  refine Value.sameBy_mono ?_ a b h
  intro x y hxy
  have heq : x = y := by simpa using hxy
  simp [heq]

theorem equalSql_iff (x a : Value D) :
    equalSql x a = true ↔
      (equal x a = true ∧ a.isNull = false) ∨ differsInForm x a = true := by
  unfold equalSql differsInForm
  cases hcompound : a.isCompound with
  | false =>
    cases a.isNull <;> simp
  | true =>
    have hnull : a.isNull = false := by
      cases a <;> simp_all [Value.isCompound, Value.isNull]
    have hequal : equal x a = sameValue x a := by
      have hnone : compareValues x a = none := by
        cases x <;> cases a <;> simp_all [Value.isCompound, compareValues]
      simp [equal, hnone]
    have himp := sameValue_jsonbEqual (a := x) (b := a)
    rw [hequal, hnull]
    cases hsame : sameValue x a with
    | false => simp
    | true => simp [himp hsame]

theorem equal_null_iff (x : Value D) : equal x .null = true ↔ x.isNull = true := by
  cases x <;> simp [equal, compareValues, sameValue, Value.sameBy, Value.isNull]

/-- Nothing that the field is compared with differs from it in form alone, unless
another item of the list is the same; and no list that holds `null` is asked for it. -/
def meetsAlike (op : Op) (x arg : Value D) : Bool :=
  match op with
  | .eq => !differsInForm x arg
  | .neq => !differsInForm x arg
  | .«in» =>
    (arg.array?.getD []).all (fun a => !differsInForm x a) ||
      (arg.array?.getD []).any fun a => equal x a
  | .nin =>
    (arg.array?.getD []).all (fun a => !differsInForm x a) ||
      (arg.array?.getD []).any fun a => equal x a
  | .contains =>
    match x, arg with
    | .array items, .null => items.all fun i => !i.isNull
    | .array items, needle =>
      items.all (fun i => !differsInForm i needle) || items.any fun i => equal i needle
    | _, _ => true
  | _ => true

def comparable (c : Cmp D) (node : ObjectNode D) : Bool :=
  (lookup node c.path).all fun x => meetsAlike c.op x c.arg

def isAscii (s : String) : Bool := s.toList.all fun c => decide (c.toNat < 128)

def foldsAscii (c : Cmp D) (node : ObjectNode D) : Bool :=
  match c.op, lookup node c.path, c.arg with
  | .contains, some (.string s), .string needle => isAscii s && isAscii needle
  | _, _, _ => true

/-- The two executors agree on an expression: the SQL condition is true when the
expression is and false when it is not. -/
def Agrees (toLowercase lower : String → String) (e : Expr D) (node : ObjectNode D) : Prop :=
  condition lower e node = .ok (some (eval toLowercase e node))

theorem any_equalSql_iff (items : List (Value D)) (pair : Value D → Value D × Value D)
    (hnull : ∀ i ∈ items, equal (pair i).1 (pair i).2 = true → (pair i).2.isNull = false) :
    (items.any (fun i => equalSql (pair i).1 (pair i).2) =
        items.any fun i => equal (pair i).1 (pair i).2) ↔
      (items.all (fun i => !differsInForm (pair i).1 (pair i).2) ||
        items.any fun i => equal (pair i).1 (pair i).2) = true := by
  cases hany : items.any fun i => equal (pair i).1 (pair i).2 with
  | true =>
    obtain ⟨i, hi, hequal⟩ := List.any_eq_true.mp hany
    have hsql : items.any (fun i => equalSql (pair i).1 (pair i).2) = true :=
      List.any_eq_true.mpr ⟨i, hi, (equalSql_iff _ _).mpr (Or.inl ⟨hequal, hnull i hi hequal⟩)⟩
    simp [hsql]
  | false =>
    have hnone : ∀ i ∈ items, equal (pair i).1 (pair i).2 = false := by
      intro i hi
      simpa using List.any_eq_false.mp hany i hi
    rw [Bool.or_false, List.all_eq_true, List.any_eq_false]
    constructor
    · intro h i hi
      have hsql := h i hi
      rw [equalSql_iff] at hsql
      simpa using fun hdiffers => hsql (Or.inr hdiffers)
    · intro h i hi hsql
      rcases (equalSql_iff _ _).mp hsql with ⟨hequal, _⟩ | hdiffers
      · rw [hnone i hi] at hequal
        cases hequal
      · have := h i hi
        rw [hdiffers] at this
        cases this

theorem equal_of_differsInForm {x a : Value D} (h : differsInForm x a = true) :
    equal x a = false := by
  simp only [differsInForm, Bool.and_eq_true, Bool.not_eq_true'] at h
  obtain ⟨⟨hcompound, _⟩, hsame⟩ := h
  have hnone : compareValues x a = none := by
    cases x <;> cases a <;> simp_all [Value.isCompound, compareValues]
  simp [equal, hnone, hsame]

theorem equalSql_eq_iff {x a : Value D} (hx : x.isNull = false) :
    equalSql x a = equal x a ↔ differsInForm x a = false := by
  have hnull : equal x a = true → a.isNull = false := by
    intro hequal
    cases a with
    | null =>
      rw [equal_null_iff, hx] at hequal
      cases hequal
    | _ => rfl
  have hiff := equalSql_iff x a
  cases hdiffers : differsInForm x a with
  | true =>
    rw [equal_of_differsInForm hdiffers]
    simp [hiff, hdiffers]
  | false =>
    cases hequal : equal x a with
    | true => simp [hiff, hequal, hnull hequal]
    | false =>
      have hfalse : equalSql x a = false := by
        rw [Bool.eq_false_iff]
        simp [hiff, hequal, hdiffers]
      simp [hfalse]

/-- **One comparison in the two executors.** -/
theorem evalCmp_eq_iff {toLowercase lower : String → String}
    (hfold : ∀ s, isAscii s = true → toLowercase s = lower s) (c : Cmp D) (node : ObjectNode D)
    (hascii : foldsAscii c node = true) :
    evalCmp equalSql lower c node = evalCmp equal toLowercase c node ↔
      comparable c node = true := by
  obtain ⟨path, op, arg⟩ := c
  simp only [evalCmp, comparable]
  by_cases hop : op = .isNull
  · subst hop
    cases lookup node path <;> simp [meetsAlike]
  · rw [if_neg hop, if_neg hop]
    cases hlookup : lookup node path with
    | none => simp
    | some x =>
      have hx : x.isNull = false := by
        unfold lookup at hlookup
        split_ifs at hlookup
        · cases hlookup
          rfl
        · have := (filter_eq_some_iff.mp hlookup).2
          simpa using this
      have hany := any_equalSql_iff (arg.array?.getD []) (fun a => (x, a)) (by
          intro a _ hequal
          cases a with
          | null =>
            rw [equal_null_iff, hx] at hequal
            cases hequal
          | _ => rfl)
      simp only [all_some]
      cases op with
      | eq => simp [meets, meetsAlike, equalSql_eq_iff hx]
      | neq => simp [meets, meetsAlike, equalSql_eq_iff hx]
      | «in» => simpa only [meets, meetsAlike] using hany
      | nin =>
        simp only [meets, meetsAlike]
        rw [Bool.not_inj_iff]
        exact hany
      | contains =>
        cases x with
        | string s =>
          cases arg with
          | string needle =>
            simp only [foldsAscii, hlookup, Bool.and_eq_true] at hascii
            simp [meets, meetsAlike, hfold s hascii.1, hfold needle hascii.2]
          | _ => simp [meets, meetsAlike]
        | array items =>
          by_cases harg : arg = .null
          · subst harg
            have hsql : ∀ i : Value D, equalSql i .null = false := by
              intro i
              simp [equalSql, Value.isCompound, Value.isNull]
            have hequal : ∀ i : Value D, equal i .null = i.isNull := by
              intro i
              rw [Bool.eq_iff_iff]
              exact equal_null_iff i
            have hnone : (items.any fun _ : Value D => false) = false :=
              List.any_eq_false.mpr fun _ _ => by simp
            simp only [meets, meetsAlike, hsql, hequal, hnone]
            rw [eq_comm, List.any_eq_false, List.all_eq_true]
            simp
          · have hlist := any_equalSql_iff items (fun i => (i, arg)) (by
                intro i _ _
                cases arg with
                | null => exact absurd rfl harg
                | _ => rfl)
            cases arg with
            | null => exact absurd rfl harg
            | _ => simpa only [meets, meetsAlike] using hlist
        | _ => simp [meets, meetsAlike]
      | isNull => exact absurd rfl hop
      | _ => simp [meets, meetsAlike]

theorem agrees_iff {toLowercase lower : String → String} (e : Expr D) (node : ObjectNode D) :
    Agrees toLowercase lower e node ↔ evalWith (fun c => evalCmp equalSql lower c node) e =
        evalWith (fun c => evalCmp equal toLowercase c node) e := by
  simp [Agrees, condition, denote_sqlExpr, eval]

/-- **Filter agreement of the two executors.** A condition is never unknown; the
comparisons of a `where` all agree exactly when all are comparable, and then so does
the `where`. -/
theorem executors_agree (toLowercase lower : String → String)
    (hfold : ∀ s, isAscii s = true → toLowercase s = lower s)
    («where» : Value D) (e : Expr D) (node : ObjectNode D) (_hparse : parseExpr «where» = .ok e)
    (hascii : ∀ c ∈ e.comparisons, foldsAscii c node = true) :
    (∃ b, condition lower e node = .ok (some b)) ∧
      ((∀ c ∈ e.comparisons, Agrees toLowercase lower (.cmp c) node) ↔
        ∀ c ∈ e.comparisons, comparable c node = true) ∧
      ((∀ c ∈ e.comparisons, comparable c node = true) →
        Agrees toLowercase lower e node) := by
  refine ⟨⟨_, denote_sqlExpr lower node e⟩, ?_, ?_⟩
  · constructor
    · intro h c hc
      have hagrees := (agrees_iff _ _).mp (h c hc)
      rw [evalWith, evalWith] at hagrees
      exact (evalCmp_eq_iff hfold c node (hascii c hc)).mp hagrees
    · intro h c hc
      rw [agrees_iff, evalWith, evalWith]
      exact (evalCmp_eq_iff hfold c node (hascii c hc)).mpr (h c hc)
  · intro h
    rw [agrees_iff]
    refine evalWith_congr e ?_
    intro c hc
    exact (evalCmp_eq_iff hfold c node (hascii c hc)).mpr (h c hc)

end Agreement

private def field (op : String) (arg : Value ℚ) : Value ℚ :=
  .object [("size", .object [(op, arg)])]

private def node (value : Value ℚ) : ObjectNode ℚ :=
  ⟨"a", .object [("size", value)]⟩

/-- `{"size": {"_eq": [1]}}` on a payload with `[1.0]`, and `{"size": {"_contains":
null}}` on a payload with `[null]`. -/
theorem executors_disagree :
    (∃ e, parseExpr (field "_eq" (.array [.number (.int 1)])) = .ok e ∧
      eval id e (node (.array [.number (.float 1)])) = false ∧
      condition id e (node (.array [.number (.float 1)])) = .ok (some true)) ∧
    (∃ e, parseExpr (field "_contains" .null) = .ok e ∧ eval id e (node (.array [.null])) = true ∧
      condition id e (node (.array [.null])) = .ok (some false)) := by
  refine ⟨⟨.cmp ⟨["size"], .eq, .array [.number (.int 1)]⟩, rfl, ?_, ?_⟩,
    ⟨.cmp ⟨["size"], .contains, .null⟩, rfl, ?_, ?_⟩⟩
  all_goals rfl

/-- On the same payload, `{"size": {"_eq": [1.0]}}` is answered alike. -/
theorem executors_agree_on_equal_form :
    ∃ e, parseExpr (field "_eq" (.array [.number (.float 1)])) = .ok e ∧
      Agrees id id e (node (.array [.number (.float 1)])) := by
  refine ⟨.cmp ⟨["size"], .eq, .array [.number (.float 1)]⟩, rfl, ?_⟩
  refine (executors_agree id id (fun _ _ => rfl)
    (field "_eq" (.array [.number (.float 1)])) _ _ rfl ?_).2.2 ?_
  · intro c hc
    rw [mem_singleton.mp hc]
    rfl
  · intro c hc
    rw [mem_singleton.mp hc]
    rfl

end DomainModel
end StudioWeb
