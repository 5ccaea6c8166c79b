import Stencil.Lambda.Basic

/-!
# Putting values in place of parameters

Substitution looks at every parameter node of the arena, whether the root reaches it or not, and
leaves types and layout alone.
-/

namespace Stencil

/-- A parameter node replaced by a constant where `replace` gives one. -/
def Kind.substitute (replace : Nat → Ty → Option Value) (kind : Kind) (ty : Ty) : Kind :=
  match kind with
  | .param i =>
    match replace i ty with
    | some value => .const value
    | none => .param i
  | other => other

namespace Arena

/-- The index and type of every parameter node, in the order of their ids. -/
def paramNodes (a : Arena) : List (Nat × Ty) :=
  a.nodes.toList.filterMap fun
    | ⟨.param index, ty⟩ => some (index, ty)
    | _ => none

end Arena

namespace Lambda

/-- The expression with new parameter declarations and constants for some parameters. -/
def substitute (e : Lambda) (params : List Param) (replace : Nat → Ty → Option Value) : Lambda :=
  ⟨params, e.arena.mapKinds (Kind.substitute replace), e.root⟩

/-- Keeps the first `arity` parameters and puts the values in place of the others, in order. -/
def reinsert (e : Lambda) (arity : Nat) (values : List Value) : Lambda :=
  let table := values.toArray
  e.substitute (e.params.take arity) fun i _ => if arity ≤ i then table[i - arity]? else none

end Lambda

end Stencil
