import Stencil.EvalError
import Stencil.Value.Basic
import Stencil.Binary64.Arithmetic

/-!
# Application of operators to values

Operators look at the values themselves, not at static types. Integer arithmetic is exact or fails;
float arithmetic and comparison follow IEEE 754; lists are joined and compared as values. `&&` and
`||` are strict here: leaving out the right operand is the evaluator's business.
-/

namespace Stencil

/-- The integer in 64 bits, if it lies in `[-2 ^ 63, 2 ^ 63)`. -/
def int64? (n : Int) : Option Int64 :=
  if -9223372036854775808 ≤ n ∧ n < 9223372036854775808 then some (Int64.ofInt n) else none

/-- The integer, or a failure of the named operation if it does not fit in 64 bits. -/
def checkedInt (operation : String) (n : Int) : Except EvalError Value :=
  match int64? n with
  | some n => .ok (.int n)
  | none => .error (.overflow operation)

namespace BinaryOp

/-- What a comparison operator says of two operands in the given order; `none` if they have none. -/
def holds : BinaryOp → Option Ordering → Bool
  | eq, o => decide (o = some .eq)
  | ne, o => decide (o ≠ some .eq)
  | lt, o => decide (o = some .lt)
  | le, o => decide (o = some .lt ∨ o = some .eq)
  | gt, o => decide (o = some .gt)
  | ge, o => decide (o = some .gt ∨ o = some .eq)
  | _, _ => false

/-- A comparison, or the complaint that the operator does not apply. -/
def comparison (op : BinaryOp) (order : Option Ordering) (operand : String) :
    Except EvalError Value :=
  if op.isEquality || op.isOrdering then .ok (.bool (op.holds order))
  else .error (.invalidBinary op operand)

def applyInt (op : BinaryOp) (a b : Int64) : Except EvalError Value :=
  match op with
  | add => checkedInt "addition" (a.toInt + b.toInt)
  | sub => checkedInt "subtraction" (a.toInt - b.toInt)
  | mul => checkedInt "multiplication" (a.toInt * b.toInt)
  | div => if b = 0 then .error .divisionByZero else checkedInt "division" (a.toInt.tdiv b.toInt)
  | mod =>
    if b = 0 then .error .moduloByZero
    else if a = Int64.minValue ∧ b = -1 then .error (.overflow "remainder")
    else checkedInt "remainder" (a.toInt.tmod b.toInt)
  | _ => op.comparison (some (compare a.toInt b.toInt)) "int"

def applyFloat (op : BinaryOp) (a b : Binary64) : Except EvalError Value :=
  match op with
  | add => .ok (.float (a.add b))
  | sub => .ok (.float (a.sub b))
  | mul => .ok (.float (a.mul b))
  | div => .ok (.float (a.div b))
  | mod => .ok (.float (a.rem b))
  | _ => op.comparison (a.compare? b) "float"

def applyBool (op : BinaryOp) (a b : Bool) : Except EvalError Value :=
  match op with
  | and => .ok (.bool (a && b))
  | or => .ok (.bool (a || b))
  | eq => .ok (.bool (a == b))
  | ne => .ok (.bool (a != b))
  | _ => .error (.invalidBinary op "bool")

def applyStr (op : BinaryOp) (a b : String) : Except EvalError Value :=
  match op with
  | add => .ok (.str (a ++ b))
  | _ => op.comparison (some (compare a b)) "str"

def applyUnit (op : BinaryOp) : Except EvalError Value :=
  match op with
  | eq => .ok (.bool true)
  | ne => .ok (.bool false)
  | _ => .error (.invalidBinary op "unit")

def applyList (op : BinaryOp) (s : Ty) (xs : List Value) (t : Ty) (ys : List Value) :
    Except EvalError Value :=
  match op with
  | add => if s = t then .ok (.list s (xs ++ ys)) else .error (.operandMismatch "list" "list")
  | eq => .ok (.bool (decide (Value.list s xs = Value.list t ys)))
  | ne => .ok (.bool (decide (Value.list s xs ≠ Value.list t ys)))
  | _ => .error (.invalidBinary op "list")

/-- The operator on two evaluated operands. -/
def apply (op : BinaryOp) (left right : Value) : Except EvalError Value :=
  match left, right with
  | .int a, .int b => op.applyInt a b
  | .float a, .float b => op.applyFloat a b
  | .bool a, .bool b => op.applyBool a b
  | .str a, .str b => op.applyStr a b
  | .list s xs, .list t ys => op.applyList s xs t ys
  | .unit, .unit => op.applyUnit
  | _, _ => .error (.operandMismatch left.kindName right.kindName)

end BinaryOp

/-- The operator on an evaluated operand. -/
def UnaryOp.apply (op : UnaryOp) (operand : Value) : Except EvalError Value :=
  match op, operand with
  | neg, .int n => checkedInt "negation" (-n.toInt)
  | neg, .float x => .ok (.float x.neg)
  | not, .bool b => .ok (.bool !b)
  | _, _ => .error (.invalidUnary op operand.kindName)

namespace Builtin

/-- Whether the first of two operands is taken: the smaller one for the minimum, the larger one for
the maximum. Of two equal operands the minimum is the first and the maximum the second. -/
def takesFirst (smallest : Bool) (order : Ordering) : Bool := (order != .gt) == smallest

/-- The smaller or the larger of two values of one ordered kind; a NaN wins over any number. -/
def extremum (f : Builtin) (smallest : Bool) (a b : Value) : Except EvalError Value :=
  match a, b with
  | .int x, .int y => .ok (if takesFirst smallest (compare x.toInt y.toInt) then a else b)
  | .float x, .float y =>
    match x.compare? y with
    | some order => .ok (if takesFirst smallest order then a else b)
    | none => .ok (if x.isNaN then a else b)
  | .str x, .str y => .ok (if takesFirst smallest (compare x y) then a else b)
  | _, _ => .error (.invalidArgument f a.kindName)

/-- The whole part of a float, if it fits in 64 bits. -/
def truncated (x : Binary64) : Except EvalError Value :=
  match x.toInt?.bind int64? with
  | some n => .ok (.int n)
  | none => .error (.floatOutOfRange x)

/-- The builtin on evaluated arguments. -/
def apply (f : Builtin) (args : List Value) : Except EvalError Value :=
  if args.length ≠ f.arity then .error (.arity f.text f.arity args.length)
  else
    match f, args with
    | abs, [.int n] => checkedInt "abs" (n.toInt.natAbs : Nat)
    | abs, [.float x] => .ok (.float x.abs)
    | min, [a, b] => extremum f true a b
    | max, [a, b] => extremum f false a b
    | len, [.list _ items] => checkedInt "len" items.length
    | len, [.str s] => checkedInt "len" s.length
    | toFloat, [.int n] => .ok (.float (.ofInt n.toInt))
    | toInt, [.float x] => truncated x
    | _, first :: _ => .error (.invalidArgument f first.kindName)
    | _, [] => .error (.arity f.text f.arity 0)

end Builtin

/-- The item of a list at an index that counts from zero. -/
def Value.index (receiver index : Value) : Except EvalError Value :=
  match receiver, index with
  | .list _ items, .int i =>
    match if 0 ≤ i.toInt then items[i.toInt.toNat]? else none with
    | some item => .ok item
    | none => .error (.indexOutOfBounds i items.length)
  | .list _ _, _ => .error (.typeMismatch .int index.ty)
  | _, _ => .error (.typeMismatch (.list index.ty) receiver.ty)

end Stencil
