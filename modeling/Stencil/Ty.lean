/-!
# Types of the expression language

`Ty` is the closed set of static types: four scalars, the unit type and lists of any nesting. Two
classes matter to the operators: *numeric* types carry arithmetic, *ordered* types carry `<` and its
relatives. `Ty.text` is the written form and `Ty.ofText?` reads it back.
-/

namespace Stencil

/-- A static type. -/
inductive Ty where
  | int
  | float
  | bool
  | str
  | unit
  | list (elem : Ty)
deriving DecidableEq, Inhabited

namespace Ty

/-- The element type of a list type. -/
def elem? : Ty → Option Ty
  | list elem => some elem
  | _ => none

/-- Integers and floats carry arithmetic. -/
def isNumeric : Ty → Bool
  | int | float => true
  | _ => false

/-- Numbers and text are ordered. -/
def isOrdered : Ty → Bool
  | int | float | str => true
  | _ => false

/-- Whether the type is a list type. -/
def isList : Ty → Bool
  | list _ => true
  | _ => false

/-- The written form: a scalar's name, or the element type in square brackets. -/
def text : Ty → String
  | int => "int"
  | float => "float"
  | bool => "bool"
  | str => "str"
  | unit => "unit"
  | list elem => "[" ++ elem.text ++ "]"

/-- Reads one type from the front of the characters and returns what follows it. -/
def read? : List Char → Option (Ty × List Char)
  | 'i' :: 'n' :: 't' :: rest => some (int, rest)
  | 'f' :: 'l' :: 'o' :: 'a' :: 't' :: rest => some (float, rest)
  | 'b' :: 'o' :: 'o' :: 'l' :: rest => some (bool, rest)
  | 's' :: 't' :: 'r' :: rest => some (str, rest)
  | 'u' :: 'n' :: 'i' :: 't' :: rest => some (unit, rest)
  | '[' :: rest =>
    match read? rest with
    | some (elem, ']' :: after) => some (list elem, after)
    | _ => none
  | _ => none

/-- Reads a type whose written form is the whole text. -/
def ofText? (s : String) : Option Ty :=
  match read? s.toList with
  | some (ty, []) => some ty
  | _ => none

/-- A written type is read back, whatever stands after it. -/
theorem read?_text (ty : Ty) (rest : List Char) :
    read? (ty.text.toList ++ rest) = some (ty, rest) := by
  induction ty generalizing rest with
  | list elem ih => simp [text, read?, ih]
  | _ => simp [text, read?]

theorem ofText?_text (ty : Ty) : ofText? ty.text = some ty := by
  have h := read?_text ty []
  rw [List.append_nil] at h
  simp [ofText?, h]

/-- The written forms of several types, each followed by a comma and a blank but the last. -/
def listText (tys : List Ty) : String :=
  ", ".intercalate (tys.map text)

end Ty

end Stencil
