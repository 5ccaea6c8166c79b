import Stencil.Ty

/-!
# Operators and builtin functions

Their symbols, their result types, and the operand types that they accept. Acceptance is what the
type checker asks; application to values is a separate matter.
-/

namespace Stencil

/-- A binary operator. -/
inductive BinaryOp where
  | add | sub | mul | div | mod
  | eq | ne | lt | le | gt | ge
  | and | or
deriving DecidableEq, Inhabited

/-- A unary operator. -/
inductive UnaryOp where
  | neg | not
deriving DecidableEq, Inhabited

/-- A builtin function. -/
inductive Builtin where
  | abs | min | max | len | toFloat | toInt
deriving DecidableEq, Inhabited

namespace BinaryOp

/-- All operators, in the order of their numbers. -/
def all : List BinaryOp :=
  [.add, .sub, .mul, .div, .mod, .eq, .ne, .lt, .le, .gt, .ge, .and, .or]

def symbol : BinaryOp → String
  | add => "+" | sub => "-" | mul => "*" | div => "/" | mod => "%"
  | eq => "==" | ne => "!=" | lt => "<" | le => "<=" | gt => ">" | ge => ">="
  | and => "&&" | or => "||"

def name : BinaryOp → String
  | add => "Add" | sub => "Sub" | mul => "Mul" | div => "Div" | mod => "Mod"
  | eq => "Eq" | ne => "NotEq" | lt => "Lt" | le => "LtEq" | gt => "Gt" | ge => "GtEq"
  | and => "And" | or => "Or"

/-- The operator's number in a fingerprint. -/
def code : BinaryOp → Nat
  | add => 0 | sub => 1 | mul => 2 | div => 3 | mod => 4
  | eq => 5 | ne => 6 | lt => 7 | le => 8 | gt => 9 | ge => 10
  | and => 11 | or => 12

def ofSymbol? (s : String) : Option BinaryOp := all.find? fun op => op.symbol == s

def isArithmetic : BinaryOp → Bool
  | add | sub | mul | div | mod => true
  | _ => false

def isEquality : BinaryOp → Bool
  | eq | ne => true
  | _ => false

def isOrdering : BinaryOp → Bool
  | lt | le | gt | ge => true
  | _ => false

def isLogical : BinaryOp → Bool
  | and | or => true
  | _ => false

/-- Arithmetic keeps the left operand's type, all else gives a boolean. -/
def resultType (op : BinaryOp) (left : Ty) : Ty :=
  if op.isArithmetic then left else .bool

/-- The operand types that the operator is defined on. -/
def accepts (op : BinaryOp) (left right : Ty) : Bool :=
  decide (left = right) &&
    match op with
    | add => left.isNumeric || decide (left = .str) || left.isList
    | sub | mul | div | mod => left.isNumeric
    | eq | ne => true
    | lt | le | gt | ge => left.isOrdered
    | and | or => decide (left = .bool)

end BinaryOp

namespace UnaryOp

def all : List UnaryOp := [.neg, .not]

def symbol : UnaryOp → String
  | neg => "-"
  | not => "!"

def name : UnaryOp → String
  | neg => "Neg"
  | not => "Not"

/-- The operator's number in a fingerprint. -/
def code : UnaryOp → Nat
  | neg => 0
  | not => 1

def ofSymbol? (s : String) : Option UnaryOp := all.find? fun op => op.symbol == s

def resultType : UnaryOp → Ty → Ty
  | neg, operand => operand
  | not, _ => .bool

/-- The operand type that the operator is defined on. -/
def accepts : UnaryOp → Ty → Bool
  | neg, operand => operand.isNumeric
  | not, operand => decide (operand = .bool)

end UnaryOp

namespace Builtin

/-- All builtins, in the order of their numbers. -/
def all : List Builtin := [.abs, .min, .max, .len, .toFloat, .toInt]

/-- The name under which an expression calls the builtin. -/
def text : Builtin → String
  | abs => "abs" | min => "min" | max => "max" | len => "len"
  | toFloat => "to_float" | toInt => "to_int"

def name : Builtin → String
  | abs => "Abs" | min => "Min" | max => "Max" | len => "Len"
  | toFloat => "ToFloat" | toInt => "ToInt"

/-- The builtin's number in a fingerprint. -/
def code : Builtin → Nat
  | abs => 0 | min => 1 | max => 2 | len => 3 | toFloat => 4 | toInt => 5

def ofText? (s : String) : Option Builtin := all.find? fun f => f.text == s

def arity : Builtin → Nat
  | min | max => 2
  | _ => 1

/-- The result type, given the first argument's type if there is one. -/
def resultType : Builtin → Option Ty → Ty
  | abs, first | min, first | max, first => first.getD .int
  | len, _ | toInt, _ => .int
  | toFloat, _ => .float

/-- Whether the builtin takes an argument of the type. -/
def accepts : Builtin → Ty → Bool
  | abs, t => t.isNumeric
  | min, t | max, t => t.isOrdered
  | len, t => decide (t = .str) || t.isList
  | toFloat, t => decide (t = .int)
  | toInt, t => decide (t = .float)

/-- The first argument type that the builtin does not take. Two arguments must also agree, and the
second one is at fault if they do not. -/
def rejects? (f : Builtin) (args : List Ty) : Option Ty :=
  match args.find? fun t => !f.accepts t with
  | some bad => some bad
  | none =>
    match args with
    | [first, second] => if first = second then none else some second
    | _ => none

end Builtin

end Stencil
