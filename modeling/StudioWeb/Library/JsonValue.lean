import Mathlib.Algebra.Order.Ring.Unbundled.Rat
import Mathlib.Order.Compare
import Mathlib.Data.String.Basic

/-!
# JSON values with their numbers

A number is written whole or with a fraction or an exponent, and the two are kept
apart: `1` and `1.0` are two values that are one number.  What a fraction stands for
is a double; doubles are a type of their own here, with what programs do with them.

Two values can be compared with any test of their numbers, `sameBy`: a test that
accepts more numbers accepts more values.

**Results.**
* `Value.sameBy_mono`: that.
* `Value.sameBy_iff_view`: a test that compares what it sees of two numbers compares what
  it sees of two values.
-/

namespace StudioWeb

universe u v

/-- Finite doubles, by value, and their conversions. -/
class Doubles (D : Type u) extends LinearOrder D where
  /-- The double nearest to an integer. -/
  ofInt : Int → D
  /-- The number that the shortest decimal text of a double denotes. -/
  decimal : D → ℚ
  /-- The double nearest to an exact number. -/
  ofNumeric : ℚ → D
  ofNumeric_int : ∀ z : Int, ofNumeric z = ofInt z
  ofNumeric_decimal : ∀ x : D, ofNumeric (decimal x) = x

/-- Exact numbers stand for the doubles that their texts denote exactly. -/
instance exactDoubles : Doubles ℚ :=
  { (inferInstance : LinearOrder ℚ) with
    ofInt := fun z => z
    decimal := fun x => x
    ofNumeric := fun q => q
    ofNumeric_int := fun _ => rfl
    ofNumeric_decimal := fun _ => rfl }

namespace JsonValue

inductive Number (D : Type u) where
  | int (value : Int)
  | float (value : D)
deriving DecidableEq

/-- A JSON value. The fields of an object are in the order of their keys. -/
inductive Value (D : Type u) where
  | null
  | bool (value : Bool)
  | number (value : Number D)
  | string (text : String)
  | array (items : List (Value D))
  | object (fields : List (String × Value D))

variable {D : Type u}

namespace Number

variable [Doubles D]

/-- The double that a program computes with. -/
def asF64 : Number D → D
  | .int z => Doubles.ofInt z
  | .float x => x

/-- The exact number of the text. -/
def numeric : Number D → ℚ
  | .int z => z
  | .float x => Doubles.decimal x

theorem ofNumeric_numeric (n : Number D) : Doubles.ofNumeric n.numeric = n.asF64 := by
  cases n with
  | int z => exact Doubles.ofNumeric_int z
  | float x => exact Doubles.ofNumeric_decimal x

end Number

namespace Value

def get? (v : Value D) (key : String) : Option (Value D) :=
  match v with
  | .object fields => fields.lookup key
  | _ => none

def isNull : Value D → Bool
  | .null => true
  | _ => false

def array? : Value D → Option (List (Value D))
  | .array items => some items
  | _ => none

def bool? : Value D → Option Bool
  | .bool value => some value
  | _ => none

def object? : Value D → Option (List (String × Value D))
  | .object fields => some fields
  | _ => none

/-- A list or an object. -/
def isCompound : Value D → Bool
  | .array _ => true
  | .object _ => true
  | _ => false

mutual

/-- Two values are the same, up to a test of their numbers. -/
def sameBy (test : Number D → Number D → Bool) : Value D → Value D → Bool
  | .null, .null => true
  | .bool x, .bool y => x == y
  | .number x, .number y => test x y
  | .string x, .string y => x == y
  | .array xs, .array ys => sameItemsBy test xs ys
  | .object xs, .object ys => sameFieldsBy test xs ys
  | _, _ => false

def sameItemsBy (test : Number D → Number D → Bool) : List (Value D) → List (Value D) → Bool
  | [], [] => true
  | x :: xs, y :: ys => sameBy test x y && sameItemsBy test xs ys
  | _, _ => false

def sameFieldsBy (test : Number D → Number D → Bool) :
    List (String × Value D) → List (String × Value D) → Bool
  | [], [] => true
  | (k, x) :: xs, (l, y) :: ys => k == l && sameBy test x y && sameFieldsBy test xs ys
  | _, _ => false

end

mutual

/-- Every double of a value, changed alike. -/
def mapFloats (f : D → D) : Value D → Value D
  | .number (.float x) => .number (.float (f x))
  | .array items => .array (mapFloatsItems f items)
  | .object fields => .object (mapFloatsFields f fields)
  | v => v

def mapFloatsItems (f : D → D) : List (Value D) → List (Value D)
  | [] => []
  | v :: rest => mapFloats f v :: mapFloatsItems f rest

def mapFloatsFields (f : D → D) : List (String × Value D) → List (String × Value D)
  | [] => []
  | (key, v) :: rest => (key, mapFloats f v) :: mapFloatsFields f rest

end

theorem isNull_mapFloats (f : D → D) (v : Value D) : (v.mapFloats f).isNull = v.isNull := by
  unfold mapFloats
  split <;> rfl

section Mono

variable {test test' : Number D → Number D → Bool}

mutual

/-- A test that accepts more numbers accepts more values. -/
theorem sameBy_mono (h : ∀ x y, test x y = true → test' x y = true) :
    ∀ a b : Value D, sameBy test a b = true → sameBy test' a b = true
  | .array xs, b => by
    cases b <;> simp only [sameBy, Bool.false_eq_true, false_implies]
    exact sameItemsBy_mono h xs _
  | .object xs, b => by
    cases b <;> simp only [sameBy, Bool.false_eq_true, false_implies]
    exact sameFieldsBy_mono h xs _
  | .number x, b => by
    cases b <;> simp only [sameBy, Bool.false_eq_true, false_implies]
    exact h x _
  | .null, b => by cases b <;> simp [sameBy]
  | .bool _, b => by cases b <;> simp [sameBy]
  | .string _, b => by cases b <;> simp [sameBy]

theorem sameItemsBy_mono (h : ∀ x y, test x y = true → test' x y = true) :
    ∀ xs ys : List (Value D), sameItemsBy test xs ys = true → sameItemsBy test' xs ys = true
  | [], ys => by cases ys <;> simp [sameItemsBy]
  | _ :: _, [] => by simp [sameItemsBy]
  | x :: xs, y :: ys => by
    simp only [sameItemsBy, Bool.and_eq_true]
    rintro ⟨hhead, htail⟩
    exact ⟨sameBy_mono h x y hhead, sameItemsBy_mono h xs ys htail⟩

theorem sameFieldsBy_mono (h : ∀ x y, test x y = true → test' x y = true) :
    ∀ xs ys : List (String × Value D),
      sameFieldsBy test xs ys = true → sameFieldsBy test' xs ys = true
  | [], ys => by cases ys <;> simp [sameFieldsBy]
  | _ :: _, [] => by simp [sameFieldsBy]
  | (k, x) :: xs, (l, y) :: ys => by
    simp only [sameFieldsBy, Bool.and_eq_true]
    rintro ⟨⟨hkey, hhead⟩, htail⟩
    exact ⟨⟨hkey, sameBy_mono h x y hhead⟩, sameFieldsBy_mono h xs ys htail⟩

end

end Mono

section View

variable {E : Type v}

mutual

/-- The value with every number seen in some way. -/
def view (f : Number D → Number E) : Value D → Value E
  | .null => .null
  | .bool b => .bool b
  | .number n => .number (f n)
  | .string s => .string s
  | .array items => .array (viewItems f items)
  | .object fields => .object (viewFields f fields)

def viewItems (f : Number D → Number E) : List (Value D) → List (Value E)
  | [] => []
  | v :: rest => view f v :: viewItems f rest

def viewFields (f : Number D → Number E) : List (String × Value D) → List (String × Value E)
  | [] => []
  | (key, v) :: rest => (key, view f v) :: viewFields f rest

end

variable {test : Number D → Number D → Bool} {f : Number D → Number E}

mutual

theorem sameBy_iff_view (h : ∀ x y, test x y = true ↔ f x = f y) :
    ∀ a b : Value D, sameBy test a b = true ↔ view f a = view f b
  | .array xs, b => by
    cases b <;> simp [sameBy, view]
    exact sameItemsBy_iff_view h xs _
  | .object xs, b => by
    cases b <;> simp [sameBy, view]
    exact sameFieldsBy_iff_view h xs _
  | .number x, b => by
    cases b <;> simp [sameBy, view]
    exact h x _
  | .null, b => by cases b <;> simp [sameBy, view]
  | .bool _, b => by cases b <;> simp [sameBy, view]
  | .string _, b => by cases b <;> simp [sameBy, view]

theorem sameItemsBy_iff_view (h : ∀ x y, test x y = true ↔ f x = f y) :
    ∀ xs ys : List (Value D), sameItemsBy test xs ys = true ↔ viewItems f xs = viewItems f ys
  | [], ys => by cases ys <;> simp [sameItemsBy, viewItems]
  | x :: xs, [] => by simp [sameItemsBy, viewItems]
  | x :: xs, y :: ys => by
    rw [sameItemsBy, Bool.and_eq_true, sameBy_iff_view h x y, sameItemsBy_iff_view h xs ys,
      viewItems, viewItems, List.cons.injEq]

theorem sameFieldsBy_iff_view (h : ∀ x y, test x y = true ↔ f x = f y) :
    ∀ xs ys : List (String × Value D),
      sameFieldsBy test xs ys = true ↔ viewFields f xs = viewFields f ys
  | [], ys => by cases ys <;> simp [sameFieldsBy, viewFields]
  | _ :: _, [] => by simp [sameFieldsBy, viewFields]
  | (k, x) :: xs, (l, y) :: ys => by
    rw [sameFieldsBy, Bool.and_eq_true, Bool.and_eq_true, beq_iff_eq, sameBy_iff_view h x y,
      sameFieldsBy_iff_view h xs ys, viewFields, viewFields, List.cons.injEq, Prod.mk.injEq]

end

end View

end Value

end JsonValue
end StudioWeb
