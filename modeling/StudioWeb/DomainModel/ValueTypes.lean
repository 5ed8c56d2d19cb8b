import StudioWeb.DomainModel.Ontology

/-!
# Checking an object against its type

`validate.rs`: the declared type of a field is a text, a name, a closed set `a | b | c`, or
either with `[]` for lists of it and `?` where it may be absent.  `check` reports every
field of an object that disagrees with its type.

An element of a closed set is text, but a value that is no text is not looked at, so
`check` finds `7` to be one of `a | b`.
-/

namespace StudioWeb
namespace DomainModel
namespace Validate

open JsonText List Option

structure Violation where
  field : String
  /-- `missing`, `type` or `enum`. -/
  kind : String
  detail : String

structure Report where
  violations : List Violation
  undeclared : List String

def Report.isClean (r : Report) : Bool := r.violations.isEmpty

/-- What the graph supplies on the node row. -/
def PLATFORM_SUPPLIED : List String := ["tenant_id", "id", "created_at", "updated_at"]

inductive Kind where
  | text
  | number
  | boolean
  | unchecked

structure TypeExpr where
  base : List Char
  array : Bool
  enumeration : Option (List (List Char))
  kind : Kind

def kindOf (base : List Char) : Kind :=
  let name := String.ofList base
  if name ∈ ["string", "timestamp", "TextContent", "URL", "URI", "Email", "MIME", "regex",
      "Locale", "SHA", "Hash", "Signature", "duration"] then .text
  else if name ∈ ["integer", "int", "number", "decimal"] then .number
  else if name = "boolean" then .boolean
  else if "Id".toList <:+ base ∨ "Ref".toList <:+ base then .text
  else .unchecked

/-- The text is `T?` or `T`, with blanks around it. -/
def withoutNullable (raw : List Char) : List Char :=
  let base := Rust.trim raw
  if base.getLast? = some '?' then Rust.trim base.dropLast else base

/-- The text ends with `[]`. -/
def endsArray (text : List Char) : Bool := "[]".toList.isSuffixOf text

def dropBrackets : List Char → List Char
  | ']' :: '[' :: rest => dropBrackets rest
  | rest => rest

/-- `trim_end_matches("[]")`. -/
def trimBrackets (text : List Char) : List Char := (dropBrackets text.reverse).reverse

/-- The values that a closed set names. -/
def alternatives (base : List Char) : List (List Char) :=
  ((base.splitOn '|').map fun a =>
    Rust.trim ((Rust.trim a).reverse.dropWhile fun c => c = '?').reverse).filter fun a => a ≠ []

def TypeExpr.parse (raw : List Char) : TypeExpr :=
  let base := withoutNullable raw
  let array := endsArray base
  let base := if array then Rust.trim (trimBrackets base) else base
  let enumeration := if '|' ∈ base then some (alternatives base) else none
  ⟨base, array, enumeration, if enumeration.isSome then .text else kindOf base⟩

def TypeExpr.kindOfFailure (expr : TypeExpr) : String :=
  if expr.enumeration.isSome then "enum" else "type"

def isNumber : Json → Bool
  | .int _ => true
  | .real _ => true
  | _ => false

/-- `none` when the value fits, otherwise what was expected. -/
def checkScalar (expr : TypeExpr) (value : Json) : Option String :=
  match expr.enumeration with
  | some alternatives =>
    value.str?.bind fun text =>
      if text.toList ∈ alternatives then none
      else some ("expected one of " ++ String.ofList (" | ".toList.intercalate alternatives))
  | none =>
    match expr.kind with
    | .text =>
      if value.str?.isSome then none
      else some s!"expected a string ({String.ofList expr.base})"
    | .number =>
      if isNumber value then none
      else some s!"expected a number ({String.ofList expr.base})"
    | .boolean => if value.bool?.isSome then none else some "expected a boolean"
    | .unchecked => none

def checkValue (property : EffectiveProperty) (value : Json) : Option Violation :=
  let expr := TypeExpr.parse property.typeExpr.toList
  if expr.array then
    match value.arr? with
    | none =>
      some ⟨property.name, "type", s!"expected an array of {String.ofList expr.base}"⟩
    | some items =>
      (items.findSome? (checkScalar expr)).map fun detail =>
        ⟨property.name, expr.kindOfFailure, detail⟩
  else
    (checkScalar expr value).map fun detail => ⟨property.name, expr.kindOfFailure, detail⟩

/-- The value of a property, when it is there and not `null`. -/
def present (property : EffectiveProperty) (fields : List (String × Json)) : Option Json :=
  (fields.lookup property.name).filter fun v => !v.same .null

def checkProperty (fields : List (String × Json)) (property : EffectiveProperty) :
    Option Violation :=
  match present property fields with
  | none =>
    if property.required = true ∧ property.name ∉ PLATFORM_SUPPLIED then
      some ⟨property.name, "missing", s!"required by {property.declaredBy} ({property.typeExpr})"⟩
    else
      none
  | some value => checkValue property value

def check (properties : List EffectiveProperty) (payload : Json) : Report :=
  match payload with
  | .obj fields =>
    ⟨properties.filterMap (checkProperty fields), ((fields.map Prod.fst).filter fun k =>
        k.toList.head? ≠ some '_' ∧ k ∉ properties.map EffectiveProperty.name).mergeSort⟩
  | _ => ⟨[⟨"", "type", "the payload is not a JSON object"⟩], []⟩

section Belongs

def Kind.Admits (k : Kind) (value : Json) : Prop :=
  match k with
  | .text => value.str?.isSome = true
  | .number => isNumber value = true
  | .boolean => value.bool?.isSome = true
  | .unchecked => True

/-- What a declared type says: one `[]` is a list of what stands before it. -/
inductive Belongs : List Char → Json → Prop where
  | items {text element : List Char} {items : List Json}
      (htext : withoutNullable text = element ++ "[]".toList)
      (hitems : ∀ v ∈ items, Belongs element v) : Belongs text (.arr items)
  | closed {text : List Char} {word : String} (hone : endsArray (withoutNullable text) = false)
      (hbar : '|' ∈ withoutNullable text)
      (hword : word.toList ∈ alternatives (withoutNullable text)) : Belongs text (.str word)
  | named {text : List Char} {value : Json} (hone : endsArray (withoutNullable text) = false)
      (hbar : '|' ∉ withoutNullable text)
      (hkind : (kindOf (withoutNullable text)).Admits value) : Belongs text value

/-- Every field that has to be there is, and every value that is belongs to its type. -/
def Satisfies (properties : List EffectiveProperty) (fields : List (String × Json)) : Prop :=
  ∀ p ∈ properties,
    match present p fields with
    | none => p.required = true → p.name ∈ PLATFORM_SUPPLIED
    | some v => Belongs p.typeExpr.toList v

/-- What stands before the `[]` of the text, if it has one, is a name or a closed set. -/
def ReadOnce (text : List Char) : Prop :=
  ∀ element, withoutNullable text = element ++ "[]".toList →
    endsArray element = false ∧ withoutNullable element = Rust.trim element ∧
      endsArray (Rust.trim element) = false

/-- The values that the text's base is asked of. -/
def elements (text : List Char) (v : Json) : List Json :=
  if (TypeExpr.parse text).array then v.arr?.getD [] else [v]

/-- Unless some text among them is none of the alternatives, the values of a closed set
are text. -/
def TextOfClosed (text : List Char) (v : Json) : Prop :=
  ∀ words, (TypeExpr.parse text).enumeration = some words →
    (∀ x ∈ elements text v, ∀ s, x.str? = some s → s.toList ∈ words) →
      ∀ x ∈ elements text v, x.str?.isSome = true

variable {text element : List Char} {v : Json} {p : EffectiveProperty}

theorem checkScalar_eq_none (expr : TypeExpr) :
    checkScalar expr v = none ↔
      match expr.enumeration with
      | some words => ∀ s, v.str? = some s → s.toList ∈ words
      | none => expr.kind.Admits v := by
  unfold checkScalar Kind.Admits
  cases expr.enumeration with
  | some => cases v.str? <;> simp
  | none => cases expr.kind <;> simp [isSome_iff_ne_none]

theorem checkValue_eq_none :
    checkValue p v = none ↔
      ((TypeExpr.parse p.typeExpr.toList).array = true → v.arr?.isSome = true) ∧
        ∀ x ∈ elements p.typeExpr.toList v,
          checkScalar (TypeExpr.parse p.typeExpr.toList) x = none := by
  unfold checkValue elements
  cases harray : (TypeExpr.parse p.typeExpr.toList).array with
  | false => simp [harray]
  | true => cases v.arr? <;> simp [harray, findSome?_eq_none_iff]

theorem endsArray_append (element : List Char) : endsArray (element ++ "[]".toList) = true :=
  isSuffixOf_iff_suffix.mpr (suffix_append _ _)

theorem belongs_iff_scalar (hone : endsArray (withoutNullable text) = false) (expr : TypeExpr)
    (henum : expr.enumeration =
      if '|' ∈ withoutNullable text then some (alternatives (withoutNullable text)) else none)
    (hkind : expr.enumeration = none → expr.kind = kindOf (withoutNullable text)) :
    Belongs text v ↔
      checkScalar expr v = none ∧ (expr.enumeration.isSome = true → v.str?.isSome = true) := by
  rw [checkScalar_eq_none]
  by_cases hbar : '|' ∈ withoutNullable text
  · rw [henum, if_pos hbar]
    constructor
    · rintro (⟨htext, _⟩ | ⟨_, _, hword⟩ | ⟨_, hnobar, _⟩)
      · rw [htext, endsArray_append] at hone
        cases hone
      · exact ⟨fun s hs => by cases hs; exact hword, fun _ => rfl⟩
      · exact absurd hbar hnobar
    · rintro ⟨hwords, htext⟩
      obtain ⟨s, hs⟩ := isSome_iff_exists.mp (htext rfl)
      cases v with
      | str word => exact .closed hone hbar (hwords word rfl)
      | _ => cases hs
  · rw [if_neg hbar] at henum
    rw [henum, hkind henum]
    constructor
    · rintro (⟨htext, _⟩ | ⟨_, hbar', _⟩ | ⟨_, _, hadmits⟩)
      · rw [htext, endsArray_append] at hone
        cases hone
      · exact absurd hbar' hbar
      · exact ⟨hadmits, by simp⟩
    · rintro ⟨hadmits, _⟩
      exact .named hone hbar hadmits

theorem trimBrackets_of_one (hone : endsArray element = false) :
    trimBrackets (element ++ "[]".toList) = element := by
  have hdrop : dropBrackets element.reverse = element.reverse := by
    unfold dropBrackets
    split
    · rename_i rest hrest
      have helement : element = rest.reverse ++ "[]".toList := by
        rw [← reverse_reverse element, hrest]
        simp
      rw [helement, endsArray_append] at hone
      cases hone
    · rfl
  have hrev : (element ++ "[]".toList).reverse = ']' :: '[' :: element.reverse := by simp
  rw [trimBrackets, hrev, dropBrackets, hdrop, reverse_reverse]

/-- A value belongs to its type when nothing is said against it and, where the type is a
closed set, it is text. -/
theorem belongs_iff (hread : ReadOnce p.typeExpr.toList) :
    Belongs p.typeExpr.toList v ↔ checkValue p v = none ∧
        ((TypeExpr.parse p.typeExpr.toList).enumeration.isSome = true →
          ∀ x ∈ elements p.typeExpr.toList v, x.str?.isSome = true) := by
  cases harray : endsArray (withoutNullable p.typeExpr.toList) with
  | false =>
    have hfalse : (TypeExpr.parse p.typeExpr.toList).array = false := harray
    have hscalar := belongs_iff_scalar (v := v) harray (TypeExpr.parse p.typeExpr.toList)
      (by simp [TypeExpr.parse, harray]) (by
        simp only [TypeExpr.parse, harray, Bool.false_eq_true, if_false]
        intro hnone
        simp [hnone])
    rw [hscalar]
    simp [checkValue, elements, hfalse]
  | true =>
    have htrue : (TypeExpr.parse p.typeExpr.toList).array = true := harray
    obtain ⟨element, htext⟩ := isSuffixOf_iff_suffix.mp harray
    obtain ⟨hone, hbody, honeBody⟩ := hread element htext.symm
    have hbase : Rust.trim (trimBrackets (withoutNullable p.typeExpr.toList)) =
        withoutNullable element := by
      rw [← htext, trimBrackets_of_one hone, hbody]
    have hscalar : ∀ x, Belongs element x ↔
        checkScalar (TypeExpr.parse p.typeExpr.toList) x = none ∧
          ((TypeExpr.parse p.typeExpr.toList).enumeration.isSome = true →
            x.str?.isSome = true) := by
      intro x
      refine belongs_iff_scalar (by rw [hbody]; exact honeBody) _ ?_ ?_
      · simp [TypeExpr.parse, harray, hbase]
      · simp only [TypeExpr.parse, harray, if_true, hbase]
        intro hnone
        simp [hnone]
    have hlist : Belongs p.typeExpr.toList v ↔
        ∃ items, v = .arr items ∧ ∀ x ∈ items, Belongs element x := by
      constructor
      · rintro (⟨htext', hitems⟩ | ⟨hnone, _⟩ | ⟨hnone, _⟩)
        · obtain rfl := append_cancel_right (htext.trans htext')
          exact ⟨_, rfl, hitems⟩
        · rw [harray] at hnone
          cases hnone
        · rw [harray] at hnone
          cases hnone
      · rintro ⟨items, rfl, hitems⟩
        exact .items htext.symm hitems
    rw [hlist, checkValue_eq_none]
    cases v with
    | arr items =>
      have helements : elements p.typeExpr.toList (.arr items) = items := by
        simp [elements, htrue, Json.arr?]
      rw [helements]
      constructor
      · rintro ⟨_, hitems, hall⟩
        cases hitems
        exact ⟨⟨fun _ => rfl, fun x hx => ((hscalar x).mp (hall x hx)).1⟩,
          fun henum x hx => ((hscalar x).mp (hall x hx)).2 henum⟩
      · rintro ⟨⟨_, hscalars⟩, htexts⟩
        exact ⟨items, rfl, fun x hx =>
          (hscalar x).mpr ⟨hscalars x hx, fun henum => htexts henum x hx⟩⟩
    | _ => simp [htrue, Json.arr?]

theorem judged_iff (hread : ReadOnce p.typeExpr.toList) :
    (checkValue p v = none ↔ Belongs p.typeExpr.toList v) ↔ TextOfClosed p.typeExpr.toList v := by
  rw [belongs_iff hread]
  have hscalar : ∀ words, (TypeExpr.parse p.typeExpr.toList).enumeration = some words →
      ∀ x, checkScalar (TypeExpr.parse p.typeExpr.toList) x = none ↔
        ∀ s, x.str? = some s → s.toList ∈ words := by
    intro words hwords x
    rw [checkScalar_eq_none, hwords]
  constructor
  · intro hright words hwords hmem x hx
    have hlist : (TypeExpr.parse p.typeExpr.toList).array = true → v.arr?.isSome = true := by
      intro harray
      cases hv : v.arr? with
      | none => simp [elements, harray, hv] at hx
      | some => rfl
    have hcheck : checkValue p v = none :=
      checkValue_eq_none.mpr ⟨hlist, fun y hy => (hscalar words hwords y).mpr (hmem y hy)⟩
    exact (hright.mp hcheck).2 (by rw [hwords]; rfl) x hx
  · intro htext
    refine ⟨fun hcheck => ⟨hcheck, fun henum => ?_⟩, fun h => h.1⟩
    obtain ⟨words, hwords⟩ := isSome_iff_exists.mp henum
    exact htext words hwords fun x hx =>
      (hscalar words hwords x).mp ((checkValue_eq_none.mp hcheck).2 x hx)

variable {properties : List EffectiveProperty} {fields : List (String × Json)}

theorem check_isClean_iff :
    (check properties (.obj fields)).isClean = true ↔
      ∀ p ∈ properties, checkProperty fields p = none := by
  simp [check, Report.isClean, filterMap_eq_nil_iff]

end Belongs

end Validate
end DomainModel
end StudioWeb
