import Stencil.Lambda.Basic

/-!
# Building expressions

A `Builder` grows an arena node by node and infers each node's static type from its operands.
Operands of the wrong type are recorded all the same; a missing node is refused (`none`) where its
type is needed, and recorded elsewhere. A `let` opens a new slot with a node that reads it, and is
closed once its body stands.

A `Step` is one request to a builder as data, so that a whole construction, nested `let`s included,
is a `List Step`.
-/

namespace Stencil

/-- An expression under construction. -/
structure Builder where
  params : Array Param
  arena : Arena
  /-- How many `let`s were opened; the next slot's number. -/
  slots : Nat
deriving Inhabited

namespace Builder

def empty : Builder := ⟨#[], .empty, 0⟩

/-- Appends a node and returns its id. -/
def push (b : Builder) (kind : Kind) (ty : Ty) : NodeId × Builder :=
  let (id, arena) := b.arena.push kind ty
  (id, { b with arena })

/-- Declares a parameter and refers to it. -/
def param (b : Builder) (name : String) (ty : Ty) : NodeId × Builder :=
  let i := b.params.size
  let declared : Builder := { b with params := b.params.push ⟨name, ty⟩ }
  declared.push (.param i) ty

/-- Refers to a declared parameter once more. -/
def paramRef? (b : Builder) (index : Nat) : Option (NodeId × Builder) := do
  let p ← b.params[index]?
  return b.push (.param index) p.ty

def constant (b : Builder) (value : Value) : NodeId × Builder :=
  b.push (.const value) value.ty

def unary? (b : Builder) (op : UnaryOp) (operand : NodeId) : Option (NodeId × Builder) := do
  let t ← b.arena.ty? operand
  return b.push (.unary op operand) (op.resultType t)

def binary? (b : Builder) (op : BinaryOp) (left right : NodeId) : Option (NodeId × Builder) := do
  let t ← b.arena.ty? left
  return b.push (.binary op left right) (op.resultType t)

def ite? (b : Builder) (cond thenId elseId : NodeId) : Option (NodeId × Builder) := do
  let t ← b.arena.ty? thenId
  return b.push (.ite cond thenId elseId) t

/-- A list literal with the given element type. -/
def list (b : Builder) (elem : Ty) (items : List NodeId) : NodeId × Builder :=
  let (range, arena) := b.arena.pushList items
  let grown : Builder := { b with arena }
  grown.push (.list range) (.list elem)

/-- The type of an item of the receiver, or the receiver's own type if it is no list. -/
def index? (b : Builder) (receiver position : NodeId) : Option (NodeId × Builder) := do
  let t ← b.arena.ty? receiver
  return b.push (.index receiver position) (t.elem?.getD t)

/-- The static type of a call, which may need the first argument's. -/
def callType? (b : Builder) (f : Builtin) : List NodeId → Option Ty
  | [] => some (f.resultType none)
  | first :: _ => (b.arena.ty? first).map fun t => f.resultType (some t)

def call? (b : Builder) (f : Builtin) (args : List NodeId) : Option (NodeId × Builder) := do
  let t ← b.callType? f args
  let (range, arena) := b.arena.pushList args
  let grown : Builder := { b with arena }
  return grown.push (.call f range) t

/-- Opens a `let`: takes the next slot and refers to it. -/
def openLet? (b : Builder) (init : NodeId) : Option (NodeId × Builder) := do
  let t ← b.arena.ty? init
  let opened : Builder := { b with slots := b.slots + 1 }
  return opened.push (.localVar b.slots) t

/-- Closes the `let` of a slot with its body. -/
def closeLet? (b : Builder) (slot : Nat) (init body : NodeId) : Option (NodeId × Builder) := do
  let t ← b.arena.ty? body
  return b.push (.letIn slot init body) t

/-- The finished expression. -/
def finish (b : Builder) (root : NodeId) : Lambda := ⟨b.params.toList, b.arena, root⟩

end Builder

/-- A reference from a step: to a node by its id, or counted back from the newest node. -/
inductive Ref where
  | node (id : NodeId)
  | back (count : Nat)
deriving DecidableEq, Inhabited

/-- The node that a reference means once `size` nodes stand, `back 1` being the newest. Ids are
32-bit words: counting back past the first node wraps around to an id beyond every arena. -/
def Ref.resolve (size : Nat) : Ref → NodeId
  | node id => id
  | back count => if count ≤ size then size - count else 4294967296 + size - count

/-- One request to a builder. -/
inductive Step where
  | param (name : String) (ty : Ty)
  | paramRef (index : Nat)
  | const (value : Value)
  | unary (op : UnaryOp) (operand : Ref)
  | binary (op : BinaryOp) (left right : Ref)
  | ite (cond thenRef elseRef : Ref)
  | index (receiver position : Ref)
  | list (elem : Ty) (items : List Ref)
  | call (f : Builtin) (args : List Ref)
  /-- A `let`; the steps build its body, starting right after the node that reads its slot. -/
  | letIn (init : Ref) (steps : List Step) (body : Ref)
  /-- The steps a number of times over. -/
  | again (count : Nat) (steps : List Step)
deriving Inhabited

namespace Step

/-- A builder's change, a number of times over. -/
def iterate? (f : Builder → Option Builder) : Nat → Builder → Option Builder
  | 0, b => some b
  | n + 1, b =>
    match f b with
    | some b => iterate? f n b
    | none => none

mutual

/-- Runs one step and returns the id of the node that it stands for. -/
def run? : Step → Builder → Option (NodeId × Builder)
  | param name ty, b => some (b.param name ty)
  | paramRef i, b => b.paramRef? i
  | const value, b => some (b.constant value)
  | unary op x, b => b.unary? op (x.resolve b.arena.size)
  | binary op l r, b => b.binary? op (l.resolve b.arena.size) (r.resolve b.arena.size)
  | ite c t e, b =>
    b.ite? (c.resolve b.arena.size) (t.resolve b.arena.size) (e.resolve b.arena.size)
  | index r i, b => b.index? (r.resolve b.arena.size) (i.resolve b.arena.size)
  | list elem xs, b => some (b.list elem (xs.map (·.resolve b.arena.size)))
  | call f xs, b => b.call? f (xs.map (·.resolve b.arena.size))
  | letIn init steps body, b => do
    let initId := init.resolve b.arena.size
    let slot := b.slots
    let (_, b) ← b.openLet? initId
    let (_, b) ← runAll? steps b
    b.closeLet? slot initId (body.resolve b.arena.size)
  | again count steps, b => do
    let b ← iterate? (fun b => (runAll? steps b).map Prod.snd) count b
    return (b.arena.size - 1, b)

/-- Runs the steps in order and returns the id of each. -/
def runAll? : List Step → Builder → Option (List NodeId × Builder)
  | [], b => some ([], b)
  | s :: rest, b => do
    let (id, b) ← run? s b
    let (ids, b) ← runAll? rest b
    return (id :: ids, b)

end

/-- Builds an expression from nothing: the steps, then the root. -/
def build? (steps : List Step) (root : Ref) : Option (List NodeId × Lambda) := do
  let (ids, b) ← runAll? steps .empty
  return (ids, b.finish (root.resolve b.arena.size))

end Step

end Stencil
