import Stencil.Interpreter

/-!
# Code

What an expression is lowered to. Parameters have become positions in one flat argument vector, and
every `let` has become a numbered cell of the frame that a call runs in. `Code.run` executes code on
an argument vector and the cells as they are, and returns the cells as it leaves them. A logical
operator hands on its left operand unless that is the boolean which leaves the decision to the
right.
-/

namespace Stencil

/-- Executable code. -/
inductive Code where
  | const (value : Value)
  | arg (position : Nat)
  | cell (number : Nat)
  | unary (op : UnaryOp) (operand : Code)
  | binary (op : BinaryOp) (left right : Code)
  | and (left right : Code)
  | or (left right : Code)
  | ite (cond thenCode elseCode : Code)
  /-- Fills a cell, then goes on. -/
  | store (number : Nat) (init body : Code)
  | list (elem : Ty) (items : List Code)
  | index (receiver position : Code)
  | call (f : Builtin) (args : List Code)
deriving Inhabited

namespace Code

/-- What is there, or the complaint that nothing is. -/
def inBounds : Option Value → Except Stop Value
  | some v => .ok v
  | none => .error .outOfBounds

mutual

/-- The value of the code, and the cells after it. -/
def run (args : Array Value) : Code → Array Value → Except Stop (Value × Array Value)
  | const v, cells => .ok (v, cells)
  | arg i, cells => do return (← inBounds args[i]?, cells)
  | cell i, cells => do return (← inBounds cells[i]?, cells)
  | unary op x, cells => do
    let (x, cells) ← x.run args cells
    return (← Stop.lift (op.apply x), cells)
  | binary op l r, cells => do
    let (l, cells) ← l.run args cells
    let (r, cells) ← r.run args cells
    return (← Stop.lift (op.apply l r), cells)
  | and l r, cells => do
    let (l, cells) ← l.run args cells
    if l = .bool true then r.run args cells else .ok (l, cells)
  | or l r, cells => do
    let (l, cells) ← l.run args cells
    if l = .bool false then r.run args cells else .ok (l, cells)
  | ite c t e, cells => do
    let (c, cells) ← c.run args cells
    match c with
    | .bool true => t.run args cells
    | .bool false => e.run args cells
    | other => .error (.error (.typeMismatch .bool other.ty))
  | store i init body, cells => do
    let (v, cells) ← init.run args cells
    if i < cells.size then body.run args (cells.setIfInBounds i v) else .error .outOfBounds
  | list elem xs, cells => do
    let (vs, cells) ← runAll args xs cells
    return (.list elem vs, cells)
  | index r i, cells => do
    let (r, cells) ← r.run args cells
    let (i, cells) ← i.run args cells
    return (← Stop.lift (r.index i), cells)
  | call f xs, cells => do
    let (vs, cells) ← runAll args xs cells
    return (← Stop.lift (f.apply vs), cells)

/-- The values of several pieces of code, run one after the other. -/
def runAll (args : Array Value) : List Code → Array Value → Except Stop (List Value × Array Value)
  | [], cells => .ok ([], cells)
  | x :: xs, cells => do
    let (v, cells) ← x.run args cells
    let (vs, cells) ← runAll args xs cells
    return (v :: vs, cells)

end

end Code

/-- An executable function: code with its calling convention. The argument vector starts with the
constants of the expression that is called, followed by the caller's arguments. -/
structure Artifact where
  paramTypes : List Ty
  /-- How many leading places of the argument vector are for constants. -/
  valueCount : Nat
  returnType : Ty
  /-- How many cells a call needs. -/
  cells : Nat
  code : Code
deriving Inhabited

namespace Artifact

/-- The length of the argument vector. -/
def arity (art : Artifact) : Nat := art.paramTypes.length

/-- Runs the code on an argument vector, once its length and types are checked. -/
def call (art : Artifact) (args : List Value) : Except Stop Value := do
  Stop.lift (checkArgs art.paramTypes args)
  let (v, _) ← art.code.run args.toArray (Array.replicate art.cells .unit)
  return v

def describe (art : Artifact) : String :=
  "Artifact \x7b param_types: [" ++ Ty.listText art.paramTypes ++ "], value_count: "
    ++ toString art.valueCount ++ ", return_type: " ++ art.returnType.text
    ++ ", cells: " ++ toString art.cells ++ ", .. \x7d"

end Artifact

end Stencil
