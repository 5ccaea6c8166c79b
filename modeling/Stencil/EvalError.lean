import Stencil.Operator.Basic
import Stencil.Binary64.Text

/-!
# Why an evaluation fails

`EvalError` lists the causes that belong to the language. `Stop` adds the two ways in which an
evaluation of a malformed expression can be without a value or a cause: a reference that leads
nowhere, and references that go round in a circle for ever. A circle alone does not stop an
evaluation, as it may be left again.
-/

namespace Stencil

/-- A cause of failure within the language. -/
inductive EvalError where
  | divisionByZero
  | moduloByZero
  | overflow (operation : String)
  | floatOutOfRange (x : Binary64)
  | typeMismatch (expected got : Ty)
  | invalidBinary (op : BinaryOp) (operand : String)
  | invalidUnary (op : UnaryOp) (operand : String)
  | operandMismatch (left right : String)
  | invalidArgument (f : Builtin) (found : String)
  | undefinedVariable (name : String)
  | indexOutOfBounds (index : Int64) (length : Nat)
  | arity (callee : String) (expected got : Nat)
deriving DecidableEq, Inhabited

/-- The text that reports the cause. -/
def EvalError.message : EvalError → String
  | divisionByZero => "division by zero"
  | moduloByZero => "modulo by zero"
  | overflow operation => "integer overflow in " ++ operation
  | floatOutOfRange x => "float " ++ x.text ++ " cannot be converted to int"
  | typeMismatch expected got => "type mismatch: expected " ++ expected.text ++ ", got " ++ got.text
  | invalidBinary op operand => "operator `" ++ op.symbol ++ "` cannot be applied to " ++ operand
  | invalidUnary op operand => "unary `" ++ op.symbol ++ "` cannot be applied to " ++ operand
  | operandMismatch left right => "cannot apply operator to `" ++ left ++ "` and `" ++ right ++ "`"
  | invalidArgument f found => f.text ++ " does not accept " ++ found
  | undefinedVariable name => "undefined variable: " ++ name
  | indexOutOfBounds index length =>
    "index " ++ toString index.toInt ++ " out of bounds for length " ++ toString length
  | arity callee expected got =>
    let noun := if expected = 1 then " argument, got " else " arguments, got "
    let subject := if callee = "" then "expected " else callee ++ " expects "
    subject ++ toString expected ++ noun ++ toString got

/-- Why an evaluation ended without a value. -/
inductive Stop where
  /-- A failure within the language. -/
  | error (cause : EvalError)
  /-- A node, a child list, an argument or a cell that does not exist was asked for. -/
  | outOfBounds
  /-- The evaluation needs more depth than it was given, or does not end. -/
  | unfinished
deriving DecidableEq, Inhabited

end Stencil
