import Stencil.Operator.Basic
import Stencil.Value.Basic

/-!
# Arenas of expression nodes

An `Arena` holds nodes by number. A node refers to its children by number too; the children of list
literals and calls, whose count varies, stand next to each other in one flat table, and the node
holds the `Range` of the table that is its own. Nothing forces these references to be sensible: an
id may lie outside the arena, a range may run past the table, a child may come after its parent.
`Arena.get?` and `Arena.list?` say what a reference leads to, if anything.
-/

namespace Stencil

/-- The number of a node in its arena. -/
abbrev NodeId := Nat

namespace NodeId

/-- How messages name a node. -/
def label (id : NodeId) : String := "ExprId(" ++ toString id ++ ")"

end NodeId

/-- A stretch of the child table: `len` entries from `start` on. -/
structure Range where
  start : Nat
  len : Nat
deriving DecidableEq, Inhabited

namespace Range

def isEmpty (r : Range) : Bool := r.len == 0

/-- How messages name a range. -/
def label (r : Range) : String := "ExprRange(" ++ toString r.start ++ "..+" ++ toString r.len ++ ")"

end Range

/-- What a node does, with its children by number. -/
inductive Kind where
  | const (value : Value)
  | param (index : Nat)
  | localVar (slot : Nat)
  | unary (op : UnaryOp) (operand : NodeId)
  | binary (op : BinaryOp) (left right : NodeId)
  | ite (cond thenId elseId : NodeId)
  | letIn (slot : Nat) (init body : NodeId)
  | list (items : Range)
  | index (receiver position : NodeId)
  | call (f : Builtin) (args : Range)
deriving DecidableEq, Inhabited

/-- The name of the kind of node. -/
def Kind.name : Kind → String
  | const _ => "const"
  | param _ => "param"
  | localVar _ => "local"
  | unary _ _ => "unary"
  | binary _ _ _ => "binary"
  | ite _ _ _ => "if"
  | letIn _ _ _ => "let"
  | list _ => "list"
  | index _ _ => "index"
  | call _ _ => "call"

/-- A node: what it does and its static type. -/
structure Node where
  kind : Kind
  ty : Ty
deriving DecidableEq, Inhabited

/-- Nodes by number, and the table of child lists. -/
structure Arena where
  nodes : Array Node
  table : Array NodeId
deriving DecidableEq, Inhabited

namespace Arena

def empty : Arena := ⟨#[], #[]⟩

def size (a : Arena) : Nat := a.nodes.size

def get? (a : Arena) (id : NodeId) : Option Node := a.nodes[id]?

/-- The static type of a node. -/
def ty? (a : Arena) (id : NodeId) : Option Ty := (a.get? id).map Node.ty

/-- The ids in a range of the child table. The whole range must lie in the table; an empty one must
start in it or right at its end. -/
def list? (a : Arena) (r : Range) : Option (List NodeId) :=
  if r.start + r.len ≤ a.table.size then some (a.table.extract r.start (r.start + r.len)).toList
  else none

/-- The children of a node in order; `none` if its range runs past the table. -/
def children? (a : Arena) : Kind → Option (List NodeId)
  | .const _ | .param _ | .localVar _ => some []
  | .unary _ x => some [x]
  | .binary _ l r => some [l, r]
  | .ite c t e => some [c, t, e]
  | .letIn _ i b => some [i, b]
  | .index r i => some [r, i]
  | .list r | .call _ r => a.list? r

/-- Appends a node; its id is the old size. -/
def push (a : Arena) (kind : Kind) (ty : Ty) : NodeId × Arena :=
  (a.nodes.size, { a with nodes := a.nodes.push ⟨kind, ty⟩ })

/-- Appends a child list to the table. -/
def pushList (a : Arena) (ids : List NodeId) : Range × Arena :=
  (⟨a.table.size, ids.length⟩, { a with table := a.table ++ ids.toArray })

/-- Every node with its kind replaced, types and references kept. -/
def mapKinds (a : Arena) (f : Kind → Ty → Kind) : Arena :=
  { a with nodes := a.nodes.map fun n => { n with kind := f n.kind n.ty } }

end Arena

end Stencil
