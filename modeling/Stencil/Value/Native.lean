import Stencil.Value.Basic

/-!
# Values as data of their own type

`Ty.Native` gives each type the data type that it stands for, without tags: `Int64` for integers,
nested `List`s for lists. `Native.toValue` writes the data as a value with the tags its type
prescribes, and `Native.ofValue?` reads it back. Reading ignores the tag of a list and looks at its
items alone.
-/

namespace Stencil

/-- The data type behind a static type. -/
@[reducible]
def Ty.Native : Ty → Type
  | int => Int64
  | float => Binary64
  | bool => Bool
  | str => String
  | unit => Unit
  | list elem => List elem.Native

namespace Native

/-- The value that holds the data, tagged as its type says. -/
def toValue : (t : Ty) → t.Native → Value
  | .int, n => .int n
  | .float, x => .float x
  | .bool, b => .bool b
  | .str, s => .str s
  | .unit, () => .unit
  | .list elem, xs => .list elem (xs.map (toValue elem))

/-- The data in a value of the type's structure. -/
def ofValue? : (t : Ty) → Value → Option t.Native
  | .int, .int n => some n
  | .float, .float x => some x
  | .bool, .bool b => some b
  | .str, .str s => some s
  | .unit, .unit => some ()
  | .list elem, .list _ items => items.mapM (ofValue? elem)
  | _, _ => none

end Native

end Stencil
