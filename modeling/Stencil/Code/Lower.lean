import Stencil.Code.Basic
import Stencil.Tree

/-!
# Lowering

`Lambda.lower` type checks an expression and turns it into code. The types of a node's children
decide whether its operator applies and what it produces; what it produces must be the type that the
node records. Each `let` that the walk meets gets a cell of its own, and a slot is read from the
cell of the innermost `let` that binds it.

The first `declared` parameters are the caller's, the others stand for constants and move to the
front of the argument vector.
-/

namespace Stencil

/-- Why an expression cannot be lowered. -/
inductive CompileCause where
  | declaredArity (declared arity : Nat)
  | danglingNode (child : NodeId)
  | danglingList
  | unboundParam (index arity : Nat)
  | unboundLocal (slot : Nat)
  | paramTypeMismatch (index : Nat) (declared found : Ty)
  | constTypeMismatch (expected found : Ty)
  | typeMismatch (recorded computed : Ty)
  | invalidUnaryOperand (op : UnaryOp) (operand : Ty)
  | invalidOperands (op : BinaryOp) (left right : Ty)
  | nonBoolCondition (found : Ty)
  | branchMismatch (thenTy elseTy : Ty)
  | listElement (expected found : Ty)
  | notAList (found : Ty)
  | nonIntIndex (found : Ty)
  | builtinArity (f : Builtin) (expected got : Nat)
  | builtinArgument (f : Builtin) (found : Ty)
deriving DecidableEq, Inhabited

/-- A cause and the node that it was found at. -/
structure CompileError where
  node : NodeId
  cause : CompileCause
deriving DecidableEq, Inhabited

/-- The text that reports the cause. -/
def CompileCause.message : CompileCause → String
  | declaredArity declared arity =>
    toString declared ++ " original parameters declared, but the skeleton only has "
      ++ toString arity
  | danglingNode child =>
    "child " ++ NodeId.label child ++ " is missing or does not precede its parent"
  | danglingList => "child list runs past the arena's list table"
  | unboundParam index arity =>
    "parameter #" ++ toString index ++ " is not declared (" ++ toString arity ++ " parameters)"
  | unboundLocal slot => "let slot l" ++ toString slot ++ " is not bound here"
  | paramTypeMismatch index declared found =>
    "parameter #" ++ toString index ++ " is declared " ++ declared.text
      ++ " but referenced as " ++ found.text
  | constTypeMismatch expected found =>
    "constant of type " ++ found.text ++ " in a node typed " ++ expected.text
  | typeMismatch recorded computed =>
    "node is typed " ++ recorded.text ++ " but produces " ++ computed.text
  | invalidUnaryOperand op operand =>
    "unary `" ++ op.symbol ++ "` cannot be applied to " ++ operand.text
  | invalidOperands op left right =>
    "operator `" ++ op.symbol ++ "` cannot be applied to " ++ left.text ++ " and " ++ right.text
  | nonBoolCondition found => "condition must be bool, found " ++ found.text
  | branchMismatch thenTy elseTy => "branches disagree: " ++ thenTy.text ++ " vs " ++ elseTy.text
  | listElement expected found => "list literal of " ++ expected.text ++ " contains " ++ found.text
  | notAList found => "cannot index into " ++ found.text
  | nonIntIndex found => "list index must be int, found " ++ found.text
  | builtinArity f expected got =>
    f.text ++ " takes " ++ toString expected ++ " arguments, got " ++ toString got
  | builtinArgument f found => f.text ++ " does not accept " ++ found.text

def CompileError.message (e : CompileError) : String :=
  e.cause.message ++ " (at " ++ NodeId.label e.node ++ ")"

/-- The parameters of an expression and where the argument vector has them. -/
structure Convention where
  params : Array Ty
  /-- How many parameters, from the first on, are the caller's. -/
  declared : Nat

namespace Convention

def valueCount (c : Convention) : Nat := c.params.size - c.declared

/-- The place of a parameter in the argument vector: constants first, then the caller's arguments.
-/
def position (c : Convention) (index : Nat) : Nat :=
  if index < c.declared then c.valueCount + index else index - c.declared

/-- The types of the argument vector. -/
def paramTypes (c : Convention) : List Ty :=
  c.params.toList.drop c.declared ++ c.params.toList.take c.declared

end Convention

/-- A `let` around the code at hand: its slot, its cell and the type of its value. -/
structure Binding where
  slot : Nat
  cell : Nat
  ty : Ty

/-- Code with the type of its value, and the number of cells in use once it stands. -/
structure Lowered where
  code : Code
  ty : Ty
  cells : Nat

namespace Site

/-- A fault at the node. -/
def fail {α : Type} (site : Site) (cause : CompileCause) : Except CompileError α :=
  .error ⟨site.id, cause⟩

/-- Code for the node, provided that it produces the recorded type. -/
def produce (site : Site) (code : Code) (ty : Ty) (cells : Nat) : Except CompileError Lowered :=
  if ty = site.ty then .ok ⟨code, ty, cells⟩ else site.fail (.typeMismatch site.ty ty)

def lowerConst (site : Site) (value : Value) (cells : Nat) : Except CompileError Lowered :=
  if value.hasType site.ty then site.produce (.const value) site.ty cells
  else site.fail (.constTypeMismatch site.ty value.ty)

def lowerParam (site : Site) (c : Convention) (index cells : Nat) : Except CompileError Lowered :=
  match c.params[index]? with
  | none => site.fail (.unboundParam index c.params.size)
  | some declared =>
    if declared = site.ty then site.produce (.arg (c.position index)) declared cells
    else site.fail (.paramTypeMismatch index declared site.ty)

def lowerLocal (site : Site) (scope : List Binding) (slot cells : Nat) :
    Except CompileError Lowered :=
  match scope.find? fun b => b.slot = slot with
  | none => site.fail (.unboundLocal slot)
  | some b => site.produce (.cell b.cell) b.ty cells

/-- Where an element type is given, an item has it. -/
def checkItem (site : Site) (elem : Option Ty) (found : Ty) : Except CompileError Unit :=
  match elem with
  | some expected => if found = expected then .ok () else site.fail (.listElement expected found)
  | none => .ok ()

end Site

/-- The code of a binary operator; the logical ones have code of their own. -/
def BinaryOp.lower : BinaryOp → Code → Code → Code
  | .and, l, r => .and l r
  | .or, l, r => .or l r
  | op, l, r => .binary op l r

namespace Tree

mutual

/-- Checks a tree and turns it into code. `owner` is the node that refers to it, `scope` holds the
`let`s around it, and `cells` says how many cells are in use before it. -/
def lower (c : Convention) (owner : NodeId) (scope : List Binding) :
    Tree → (cells : Nat) → Except CompileError Lowered
  | dangling id, _ => .error ⟨owner, .danglingNode id⟩
  | const site v, cells => site.lowerConst v cells
  | param site i, cells => site.lowerParam c i cells
  | localVar site slot, cells => site.lowerLocal scope slot cells
  | unary site op x, cells => do
    let x ← x.lower c site.id scope cells
    if op.accepts x.ty then site.produce (.unary op x.code) (op.resultType x.ty) x.cells
    else site.fail (.invalidUnaryOperand op x.ty)
  | binary site op l r, cells => do
    let l ← l.lower c site.id scope cells
    let r ← r.lower c site.id scope l.cells
    if op.accepts l.ty r.ty then site.produce (op.lower l.code r.code) (op.resultType l.ty) r.cells
    else site.fail (.invalidOperands op l.ty r.ty)
  | ite site b t e, cells => do
    let b ← b.lower c site.id scope cells
    let t ← t.lower c site.id scope b.cells
    let e ← e.lower c site.id scope t.cells
    if b.ty ≠ .bool then site.fail (.nonBoolCondition b.ty)
    else if t.ty ≠ e.ty then site.fail (.branchMismatch t.ty e.ty)
    else site.produce (.ite b.code t.code e.code) t.ty e.cells
  | letIn site slot i b, cells => do
    let i ← i.lower c site.id scope cells
    let b ← b.lower c site.id (⟨slot, i.cells, i.ty⟩ :: scope) (i.cells + 1)
    site.produce (.store i.cells i.code b.code) b.ty b.cells
  | list site xs, cells =>
    match site.ty.elem? with
    | none => site.fail (.notAList site.ty)
    | some elem => do
      let (codes, _, cells) ← lowerAll c site scope (some elem) xs cells
      site.produce (.list elem codes) (.list elem) cells
  | index site r i, cells => do
    let r ← r.lower c site.id scope cells
    let i ← i.lower c site.id scope r.cells
    match r.ty.elem? with
    | none => site.fail (.notAList r.ty)
    | some elem =>
      if i.ty = .int then site.produce (.index r.code i.code) elem i.cells
      else site.fail (.nonIntIndex i.ty)
  | call site f xs, cells =>
    if xs.length ≠ f.arity then site.fail (.builtinArity f f.arity xs.length)
    else do
      let (codes, types, cells) ← lowerAll c site scope none xs cells
      match f.rejects? types with
      | some found => site.fail (.builtinArgument f found)
      | none => site.produce (.call f codes) (f.resultType types.head?) cells
  | raggedList site, _ => site.fail .danglingList
  | raggedCall site _, _ => site.fail .danglingList

/-- The children of a list or a call, in order. Where an element type is given, each must have it.
-/
def lowerAll (c : Convention) (site : Site) (scope : List Binding) (elem : Option Ty) :
    List Tree → (cells : Nat) → Except CompileError (List Code × List Ty × Nat)
  | [], cells => .ok ([], [], cells)
  | x :: xs, cells => do
    let x ← x.lower c site.id scope cells
    site.checkItem elem x.ty
    let (codes, types, cells) ← lowerAll c site scope elem xs x.cells
    return (x.code :: codes, x.ty :: types, cells)

end

end Tree

/-- The executable form of an expression of which the first `declared` parameters are the caller's.
-/
def Lambda.lower (e : Lambda) (declared : Nat) : Except CompileError Artifact :=
  if e.arity < declared then .error ⟨e.root, .declaredArity declared e.arity⟩
  else do
    let c : Convention := ⟨e.paramTypes.toArray, declared⟩
    let lowered ← e.tree.lower c e.root [] 0
    return ⟨c.paramTypes, c.valueCount, lowered.ty, lowered.cells, lowered.code⟩

end Stencil
