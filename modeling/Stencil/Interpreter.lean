import Stencil.Lambda.Basic
import Stencil.Operator.Apply

/-!
# Direct evaluation

`Lambda.interpret` evaluates an expression as it stands in its arena, with no check beforehand but
that of the arguments. `&&` and `||` leave out the right operand when the left one decides; an
operand that is no boolean goes to the operator, which refuses it.

References are followed wherever they lead, also round in a circle. An evaluation on a circle may
still end, since a `let` on it can change what the next round finds. So `Arena.eval` takes a bound
on the nesting, and `Lambda.interpret` raises the bound until the evaluation ends (`deepen`). An
expression that does not contain itself ends within the first bound.
-/

namespace Stencil

/-- A failure within the language, as a reason to stop. -/
def Stop.lift (r : Except EvalError α) : Except Stop α := r.mapError .error

/-- Whether the left operand of a binary operator is already the result. -/
def BinaryOp.decides : BinaryOp → Value → Bool
  | .and, .bool b => !b
  | .or, .bool b => b
  | _, _ => false

/-- The value that a slot is bound to, innermost binding first. -/
def lookupSlot (scope : List (Nat × Value)) (slot : Nat) : Option Value :=
  (scope.find? fun binding => binding.1 = slot).map Prod.snd

/-- A variable's value, or the complaint that it has none. -/
def definedOr (name : String) : Option Value → Except Stop Value
  | some v => .ok v
  | none => .error (.error (.undefinedVariable name))

namespace Arena

/-- The value of a node that is nested less than `depth` deep. -/
def eval (a : Arena) (args : Array Value) :
    (depth : Nat) → (scope : List (Nat × Value)) → NodeId → Except Stop Value
  | 0, _, _ => .error .unfinished
  | depth + 1, scope, id =>
    match a.get? id with
    | none => .error .outOfBounds
    | some ⟨kind, ty⟩ =>
      match kind with
      | .const value => .ok value
      | .param index => definedOr ("#" ++ toString index) args[index]?
      | .localVar slot => definedOr ("l" ++ toString slot) (lookupSlot scope slot)
      | .unary op x => do
        let x ← a.eval args depth scope x
        Stop.lift (op.apply x)
      | .binary op l r => do
        let l ← a.eval args depth scope l
        if op.decides l then .ok l
        else do
          let r ← a.eval args depth scope r
          Stop.lift (op.apply l r)
      | .ite c t e => do
        match ← a.eval args depth scope c with
        | .bool true => a.eval args depth scope t
        | .bool false => a.eval args depth scope e
        | other => .error (.error (.typeMismatch .bool other.ty))
      | .letIn slot i b => do
        let v ← a.eval args depth scope i
        a.eval args depth ((slot, v) :: scope) b
      | .list items =>
        match ty.elem? with
        | none => .error (.error (.typeMismatch (.list ty) ty))
        | some elem =>
          match a.list? items with
          | none => .error .outOfBounds
          | some ids => do return .list elem (← ids.mapM (a.eval args depth scope))
      | .index r i => do
        let r ← a.eval args depth scope r
        let i ← a.eval args depth scope i
        Stop.lift (r.index i)
      | .call f args' =>
        match a.list? args' with
        | none => .error .outOfBounds
        | some ids => do
          let vs ← ids.mapM (a.eval args depth scope)
          Stop.lift (f.apply vs)

end Arena

/-- Each argument carries its parameter's type; the first that does not is at fault. -/
def checkTypes : List Ty → List Value → Except EvalError Unit
  | t :: ts, v :: vs => if v.ty = t then checkTypes ts vs else .error (.typeMismatch t v.ty)
  | _, _ => .ok ()

/-- As many arguments as parameters, each of its parameter's type. -/
def checkArgs (types : List Ty) (args : List Value) : Except EvalError Unit :=
  if args.length = types.length then checkTypes types args
  else .error (.arity "" types.length args.length)

/-- The depth to try next, if an attempt was not enough. -/
def Deeper (done : Nat → Bool) (next depth : Nat) : Prop := ¬ done depth ∧ next = 2 * depth + 1

/-- The first of `depth`, `2 * depth + 1` and so on that is enough. If there is none, this does
not end. -/
def enough (done : Nat → Bool) (depth : Nat) : Nat :=
  WellFounded.partialExtrinsicFix (Deeper done)
    (fun depth search => if h : done depth then depth else search (2 * depth + 1) ⟨h, rfl⟩) depth

/-- Whether an evaluation had the depth that it needs. -/
def finished : Except Stop α → Bool
  | .error .unfinished => false
  | _ => true

/-- What an evaluation comes to that is given `depth` and, if it is unfinished, as much as it
needs. -/
def deepen (attempt : Nat → Except Stop α) (depth : Nat) : Except Stop α :=
  match attempt depth with
  | .error .unfinished => attempt (enough (fun depth => finished (attempt depth)) depth)
  | r => r

/-- The value of an expression on arguments. -/
def Lambda.interpret (e : Lambda) (args : List Value) : Except Stop Value := do
  Stop.lift (checkArgs e.paramTypes args)
  deepen (fun depth => e.arena.eval args.toArray depth [] e.root) (e.arena.size + 1)

end Stencil
