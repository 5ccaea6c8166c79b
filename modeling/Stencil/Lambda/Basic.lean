import Stencil.Arena

/-!
# Parameterised expressions

A `Lambda` is an arena with a root and a list of declared parameters. Parameter nodes refer to the
declarations by position; names are for the reader only.
-/

namespace Stencil

/-- A declared parameter. -/
structure Param where
  name : String
  ty : Ty
deriving DecidableEq, Inhabited

/-- How messages show a name. -/
def nameLabel (name : String) : String := "Name(" ++ name ++ ")"

/-- The form that shows how the parameter was declared. -/
def Param.describe (p : Param) : String :=
  "Param \x7b name: " ++ nameLabel p.name ++ ", ty: " ++ p.ty.text ++ " \x7d"

/-- A parameterised expression. -/
structure Lambda where
  params : List Param
  arena : Arena
  root : NodeId
deriving DecidableEq, Inhabited

namespace Lambda

def arity (e : Lambda) : Nat := e.params.length

/-- The static type of the root. -/
def returnType? (e : Lambda) : Option Ty := e.arena.ty? e.root

def paramTypes (e : Lambda) : List Ty := e.params.map Param.ty

def describeParams (e : Lambda) : String :=
  "[" ++ ", ".intercalate (e.params.map Param.describe) ++ "]"

end Lambda

end Stencil
