import Stencil.Ty
import Stencil.Binary64.Basic

/-!
# Values

A `Value` is what an expression evaluates to. A list carries the element type it was declared with;
nothing checks its items against that tag, so `Value.ty` looks at the tag alone. Equality of values
is structural, which compares floats by their bit patterns.
-/

namespace Stencil

/-- A runtime value. -/
inductive Value where
  | int (n : Int64)
  | float (x : Binary64)
  | bool (b : Bool)
  | str (s : String)
  | unit
  | list (elem : Ty) (items : List Value)
deriving Inhabited

namespace Value

mutual

/-- The equality test behind `DecidableEq`. -/
def same : Value → Value → Bool
  | int a, int b => decide (a = b)
  | float a, float b => decide (a = b)
  | bool a, bool b => decide (a = b)
  | str a, str b => decide (a = b)
  | unit, unit => true
  | list s xs, list t ys => decide (s = t) && sameAll xs ys
  | _, _ => false

/-- Item-by-item equality of two lists. -/
def sameAll : List Value → List Value → Bool
  | [], [] => true
  | x :: xs, y :: ys => same x y && sameAll xs ys
  | _, _ => false

end

mutual

theorem same_eq_true_iff : (v w : Value) → (same v w = true ↔ v = w)
  | int _, w => by cases w <;> simp [same]
  | float _, w => by cases w <;> simp [same]
  | bool _, w => by cases w <;> simp [same]
  | str _, w => by cases w <;> simp [same]
  | unit, w => by cases w <;> simp [same]
  | list _ xs, w => by
    cases w with
    | list _ ys => simp [same, sameAll_eq_true_iff xs ys]
    | _ => simp [same]

theorem sameAll_eq_true_iff : (vs ws : List Value) → (sameAll vs ws = true ↔ vs = ws)
  | [], ws => by cases ws <;> simp [sameAll]
  | x :: xs, ws => by
    cases ws with
    | nil => simp [sameAll]
    | cons y ys => simp [sameAll, same_eq_true_iff x y, sameAll_eq_true_iff xs ys]

end

instance : DecidableEq Value := fun v w => decidable_of_iff _ (same_eq_true_iff v w)

/-- The type a value carries; a list's is its tag, whatever its items are. -/
def ty : Value → Ty
  | int _ => .int
  | float _ => .float
  | bool _ => .bool
  | str _ => .str
  | unit => .unit
  | list elem _ => .list elem

/-- Whether the value carries the type. -/
def hasType (v : Value) (t : Ty) : Bool := decide (v.ty = t)

/-- The name of the kind of value, the same for all lists. -/
def kindName : Value → String
  | int _ => "int"
  | float _ => "float"
  | bool _ => "bool"
  | str _ => "str"
  | unit => "unit"
  | list _ _ => "list"

def asInt? : Value → Option Int64
  | int n => some n
  | _ => none

def asFloat? : Value → Option Binary64
  | float x => some x
  | _ => none

def asBool? : Value → Option Bool
  | bool b => some b
  | _ => none

def asStr? : Value → Option String
  | str s => some s
  | _ => none

def asList? : Value → Option (Ty × List Value)
  | list elem items => some (elem, items)
  | _ => none

end Value

/-- The value that stands for a type where the value itself does not matter. -/
def Ty.default : Ty → Value
  | int => .int 0
  | float => .float .zero
  | bool => .bool false
  | str => .str ""
  | unit => .unit
  | list elem => .list elem []

@[simp]
theorem Ty.ty_default (t : Ty) : t.default.ty = t := by
  cases t <;> rfl

end Stencil
