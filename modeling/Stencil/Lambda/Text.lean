import Stencil.Lambda.Basic
import Stencil.Value.Text

/-!
# Printed expressions

Operators, `if` and `let` are in parentheses, so no precedence rules are needed. Lists and the
arguments of calls have brackets of their own, and an index follows its list without further
parentheses. A reference that leads nowhere is printed where it stands. References are followed
wherever they lead, so the text of an expression that contains itself would not end: `Arena.write?`
takes a bound on the nesting and gives no text beyond it. An expression that does not contain itself
is nested at most as deep as its arena has nodes, which is the bound that `Lambda.render?` takes.
-/

namespace Stencil

/-- Writes items after a text, with a comma and a blank between them. -/
def writeAll? {α : Type} (write : α → String → Option String) : List α → String → Option String
  | [], s => some s
  | [x], s => write x s
  | x :: xs, s => do
    let s ← write x s
    writeAll? write xs (s ++ ", ")

namespace Arena

/-- Writes a node after a text, if it is nested less than `depth` deep. -/
def write? (a : Arena) (params : Array Param) : (depth : Nat) → NodeId → String → Option String
  | 0, _, _ => none
  | depth + 1, id, s =>
    let node := a.write? params depth
    let list (r : Range) (s : String) : Option String :=
      match a.list? r with
      | none => some (s ++ "<dangling " ++ r.label ++ ">")
      | some ids => writeAll? node ids s
    match a.get? id with
    | none => some (s ++ "<dangling #" ++ toString id ++ ">")
    | some ⟨kind, _⟩ =>
      match kind with
      | .const value => some (s ++ value.text)
      | .param i =>
        match params[i]? with
        | some p => some (s ++ p.name)
        | none => some (s ++ "<param #" ++ toString i ++ ">")
      | .localVar slot => some (s ++ "l" ++ toString slot)
      | .unary op x => do
        let s ← node x (s ++ "(" ++ op.symbol)
        return s ++ ")"
      | .binary op l r => do
        let s ← node l (s ++ "(")
        let s ← node r (s ++ " " ++ op.symbol ++ " ")
        return s ++ ")"
      | .ite c t e => do
        let s ← node c (s ++ "(if ")
        let s ← node t (s ++ " then ")
        let s ← node e (s ++ " else ")
        return s ++ ")"
      | .letIn slot i b => do
        let s ← node i (s ++ "(let l" ++ toString slot ++ " = ")
        let s ← node b (s ++ " in ")
        return s ++ ")"
      | .list items => do
        let s ← list items (s ++ "[")
        return s ++ "]"
      | .index r i => do
        let s ← node r s
        let s ← node i (s ++ "[")
        return s ++ "]"
      | .call f args => do
        let s ← list args (s ++ f.text ++ "(")
        return s ++ ")"

end Arena

/-- A parameter as it stands between the bars. -/
def Param.text (p : Param) : String := p.name ++ ": " ++ p.ty.text

namespace Lambda

/-- The declared parameters between bars. -/
def header (e : Lambda) : String := "|" ++ ", ".intercalate (e.params.map Param.text) ++ "| "

/-- The printed expression, `none` if it contains itself. -/
def render? (e : Lambda) : Option String :=
  e.arena.write? e.params.toArray (e.arena.size + 1) e.root e.header

end Lambda

end Stencil
