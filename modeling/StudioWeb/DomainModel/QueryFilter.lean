import StudioWeb.Library.JsonValue
import Mathlib.Data.List.Infix

/-!
# The filter of a query

`parse_expr`, `lookup`, `compare`, `equal` and `eval` of `query.rs`: a `where` is a
boolean expression over the fields of an object, and a field that is missing or
`null` matches no comparison.

`evalWith` takes the equality and the case folding of an executor as arguments, so
that the two executors can be compared; `eval` is the one in memory.
-/

namespace StudioWeb
namespace DomainModel

open JsonValue List

universe u

variable {D : Type u}

inductive Op where
  | eq
  | neq
  | gt
  | gte
  | lt
  | lte
  | «in»
  | nin
  | contains
  | isNull
deriving DecidableEq

def Op.ALL : String := "_eq, _neq, _gt, _gte, _lt, _lte, _in, _nin, _contains, _is_null"

def Op.parse (token : String) : Option Op :=
  if token = "_eq" then some .eq
  else if token = "_neq" then some .neq
  else if token = "_gt" then some .gt
  else if token = "_gte" then some .gte
  else if token = "_lt" then some .lt
  else if token = "_lte" then some .lte
  else if token = "_in" then some .«in»
  else if token = "_nin" then some .nin
  else if token = "_contains" then some .contains
  else if token = "_is_null" then some .isNull
  else none

/-- One comparison of a field. -/
structure Cmp (D : Type u) where
  path : List String
  op : Op
  arg : Value D

inductive Expr (D : Type u) where
  | and (list : List (Expr D))
  | or (list : List (Expr D))
  | not (e : Expr D)
  | cmp (c : Cmp D)

def parseOps (field : String) : List (String × Value D) → Except String (List (Expr D))
  | [] => .ok []
  | (token, arg) :: rest =>
    match Op.parse token with
    | none => .error s!"`{token}` on `{field}` is not an operator; use {Op.ALL}"
    | some op =>
      if (op = .«in» ∨ op = .nin) ∧ arg.array?.isNone then
        .error s!"`{token}` on `{field}` takes a list"
      else if op = .isNull ∧ arg.bool?.isNone then
        .error s!"`_is_null` on `{field}` takes true or false"
      else
        match parseOps field rest with
        | .error error => .error error
        | .ok parts =>
          let path := (field.toList.splitOn '.').map String.ofList
          .ok (.cmp ⟨path, op, arg⟩ :: parts)

/-- A single part stands for itself. -/
def conjunction (parts : List (Expr D)) : Expr D :=
  match parts with
  | [e] => e
  | parts => .and parts

mutual

def parseExpr : Value D → Except String (Expr D)
  | .object fields =>
    match parseFields fields with
    | .error error => .error error
    | .ok parts => .ok (conjunction parts)
  | _ => .error ("a `where` is an object: " ++ "\x7b\"field\": \x7b\"_eq\": value\x7d\x7d")

def parseFields : List (String × Value D) → Except String (List (Expr D))
  | [] => .ok []
  | (key, val) :: rest =>
    let parsed : Except String (List (Expr D)) :=
      if key = "_and" ∨ key = "_or" then
        match val with
        | .array items =>
          match parseList items with
          | .error error => .error error
          | .ok list => .ok [if key = "_and" then .and list else .or list]
        | _ => .error s!"`{key}` takes a list of expressions"
      else if key = "_not" then
        match parseExpr val with
        | .error error => .error error
        | .ok e => .ok [.not e]
      else if key.toList.head? = some '_' then
        .error s!"`{key}` is not a combinator; use _and, _or, _not, or a field name"
      else
        match val.object? with
        | none =>
          .error (s!"`{key}` takes operators, as in " ++
            "\x7b\"" ++ key ++ "\": \x7b\"_eq\": …\x7d\x7d")
        | some ops => parseOps key ops
    match parsed with
    | .error error => .error error
    | .ok parts =>
      match parseFields rest with
      | .error error => .error error
      | .ok more => .ok (parts ++ more)

def parseList : List (Value D) → Except String (List (Expr D))
  | [] => .ok []
  | v :: rest =>
    match parseExpr v with
    | .error error => .error error
    | .ok e =>
      match parseList rest with
      | .error error => .error error
      | .ok more => .ok (e :: more)

end

section Eval

/-- An object as a query sees it. -/
structure ObjectNode (D : Type u) where
  instanceId : String
  value : Value D

/-- The value at a path, read as absent when it is `null`. -/
def lookup (node : ObjectNode D) (path : List String) : Option (Value D) :=
  if path = ["id"] then
    some (.string node.instanceId)
  else
    (path.foldlM Value.get? node.value).filter fun v => !v.isNull

variable [Doubles D]

/-- Numbers by value, strings by code point, booleans false first; two kinds, lists
and objects have no order. -/
def compareValues (a b : Value D) : Option Ordering :=
  match a, b with
  | .number x, .number y => some (compare x.asF64 y.asF64)
  | .string x, .string y => some (compare x y)
  | .bool x, .bool y => some (compare x y)
  | _, _ => none

/-- `a == b` of the values in memory: a whole number is not a fraction. -/
def sameValue (a b : Value D) : Bool := a.sameBy (fun x y => decide (x = y)) b

def equal (a b : Value D) : Bool :=
  match compareValues a b with
  | some ord => ord.isEq
  | none => sameValue a b

/-- What a comparison asks of the value of its field. -/
def meets (eq : Value D → Value D → Bool) (fold : String → String) (op : Op)
    (x arg : Value D) : Bool :=
  let inList := (arg.array?.getD []).any fun a => eq x a
  match op with
  | .eq => eq x arg
  | .neq => !eq x arg
  | .gt => compareValues x arg == some .gt
  | .gte => compareValues x arg == some .gt || compareValues x arg == some .eq
  | .lt => compareValues x arg == some .lt
  | .lte => compareValues x arg == some .lt || compareValues x arg == some .eq
  | .«in» => inList
  | .nin => !inList
  | .contains =>
    match x, arg with
    | .string s, .string needle =>
      decide ((fold needle).toList <:+: (fold s).toList)
    | .array items, needle => items.any fun i => eq i needle
    | _, _ => false
  | .isNull => false

/-- One comparison, on the value of its field. -/
def evalCmp (eq : Value D → Value D → Bool) (fold : String → String) (c : Cmp D)
    (node : ObjectNode D) : Bool :=
  let found := lookup node c.path
  if c.op = .isNull then
    found.isNone == c.arg.bool?.getD true
  else
    match found with
    | none => false
    | some x => meets eq fold c.op x c.arg

mutual

def evalWith (cmp : Cmp D → Bool) : Expr D → Bool
  | .and list => evalAll cmp list
  | .or list => evalAny cmp list
  | .not e => !evalWith cmp e
  | .cmp c => cmp c

def evalAll (cmp : Cmp D → Bool) : List (Expr D) → Bool
  | [] => true
  | e :: rest => evalWith cmp e && evalAll cmp rest

def evalAny (cmp : Cmp D → Bool) : List (Expr D) → Bool
  | [] => false
  | e :: rest => evalWith cmp e || evalAny cmp rest

end

/-- `eval`, in memory. -/
def eval (fold : String → String) (e : Expr D) (node : ObjectNode D) : Bool :=
  evalWith (fun c => evalCmp equal fold c node) e

end Eval

section Comparisons

mutual

def Expr.comparisons : Expr D → List (Cmp D)
  | .and list => comparisonsOf list
  | .or list => comparisonsOf list
  | .not e => e.comparisons
  | .cmp c => [c]

def comparisonsOf : List (Expr D) → List (Cmp D)
  | [] => []
  | e :: rest => e.comparisons ++ comparisonsOf rest

end

variable {cmp cmp' : Cmp D → Bool}

mutual

/-- An expression is what its comparisons are. -/
theorem evalWith_congr :
    ∀ e : Expr D, (∀ c ∈ e.comparisons, cmp c = cmp' c) → evalWith cmp e = evalWith cmp' e
  | .and list, h => by
    rw [evalWith, evalWith]
    exact evalAll_congr list h
  | .or list, h => by
    rw [evalWith, evalWith]
    exact evalAny_congr list h
  | .not e, h => by
    rw [evalWith, evalWith, evalWith_congr e h]
  | .cmp c, h => by
    rw [evalWith, evalWith]
    exact h c (mem_singleton_self c)

theorem evalAll_congr :
    ∀ list : List (Expr D), (∀ c ∈ comparisonsOf list, cmp c = cmp' c) →
      evalAll cmp list = evalAll cmp' list
  | [], _ => rfl
  | e :: rest, h => by
    rw [evalAll, evalAll, evalWith_congr e fun c hc => h c (mem_append_left _ hc),
      evalAll_congr rest fun c hc => h c (mem_append_right _ hc)]

theorem evalAny_congr :
    ∀ list : List (Expr D), (∀ c ∈ comparisonsOf list, cmp c = cmp' c) →
      evalAny cmp list = evalAny cmp' list
  | [], _ => rfl
  | e :: rest, h => by
    rw [evalAny, evalAny, evalWith_congr e fun c hc => h c (mem_append_left _ hc),
      evalAny_congr rest fun c hc => h c (mem_append_right _ hc)]

end

end Comparisons

end DomainModel
end StudioWeb
