import Stencil.Tree

/-!
# Taking the constants out

`Lambda.extract` checks that an expression is well formed and splits it into a *skeleton* and its
constants. The skeleton is laid out afresh, children before parents and every occurrence of a node
on its own, and has a placeholder parameter where each constant stood: placeholders follow the
declared parameters, in the order in which the walk meets the constants.

`Lambda.extractValues` makes the same checks and collects the constants only.
-/

namespace Stencil

/-- What makes an expression malformed. -/
inductive ExtractError where
  | danglingRoot (root : NodeId) (size : Nat)
  | forwardReference (parent child : NodeId)
  | danglingList (node : NodeId)
  | unboundParam (node : NodeId) (index arity : Nat)
  | unboundLocal (node : NodeId) (slot : Nat)
  | constTypeMismatch (node : NodeId) (expected found : Ty)
deriving DecidableEq, Inhabited

/-- The text that reports the fault. -/
def ExtractError.message : ExtractError → String
  | danglingRoot root size =>
    "root " ++ NodeId.label root ++ " is not in the arena (" ++ toString size ++ " nodes)"
  | forwardReference parent child =>
    "node " ++ NodeId.label parent ++ " refers to child " ++ NodeId.label child
      ++ ", which does not precede it"
  | danglingList node =>
    "child list of node " ++ NodeId.label node ++ " runs past the arena's list table"
  | unboundParam node index arity =>
    "node " ++ NodeId.label node ++ " references parameter #" ++ toString index ++ ", but only "
      ++ toString arity ++ " are declared"
  | unboundLocal node slot =>
    "node " ++ NodeId.label node ++ " references let slot l" ++ toString slot
      ++ " outside of its binding"
  | constTypeMismatch node expected found =>
    "constant at " ++ NodeId.label node ++ " holds a " ++ found.text
      ++ " value but the node is typed " ++ expected.text

namespace Site

/-- A constant carries its node's type. -/
def checkConst (site : Site) (value : Value) : Except ExtractError Unit :=
  if value.ty = site.ty then .ok () else .error (.constTypeMismatch site.id site.ty value.ty)

/-- A parameter is declared. -/
def checkParam (site : Site) (arity index : Nat) : Except ExtractError Unit :=
  if index < arity then .ok () else .error (.unboundParam site.id index arity)

/-- A slot is read inside the body of its `let`. -/
def checkLocal (site : Site) (scope : List Nat) (slot : Nat) : Except ExtractError Unit :=
  if slot ∈ scope then .ok () else .error (.unboundLocal site.id slot)

end Site

namespace Tree

mutual

/-- Checks the tree and appends its constants from left to right. `owner` is the node that refers to
the tree, `scope` the slots bound around it. -/
def collect (arity : Nat) (owner : NodeId) (scope : List Nat) :
    Tree → Array Value → Except ExtractError (Array Value)
  | dangling id, _ => .error (.forwardReference owner id)
  | const site v, vs => do
    site.checkConst v
    return vs.push v
  | param site i, vs => do
    site.checkParam arity i
    return vs
  | localVar site slot, vs => do
    site.checkLocal scope slot
    return vs
  | unary site _ x, vs => x.collect arity site.id scope vs
  | binary site _ l r, vs => do
    let vs ← l.collect arity site.id scope vs
    r.collect arity site.id scope vs
  | ite site c t e, vs => do
    let vs ← c.collect arity site.id scope vs
    let vs ← t.collect arity site.id scope vs
    e.collect arity site.id scope vs
  | letIn site slot i b, vs => do
    let vs ← i.collect arity site.id scope vs
    b.collect arity site.id (slot :: scope) vs
  | list site xs, vs => collectAll arity site.id scope xs vs
  | index site r i, vs => do
    let vs ← r.collect arity site.id scope vs
    i.collect arity site.id scope vs
  | call site _ xs, vs => collectAll arity site.id scope xs vs
  | raggedList site, _ => .error (.danglingList site.id)
  | raggedCall site _, _ => .error (.danglingList site.id)

/-- The children of a list or a call, in order. -/
def collectAll (arity : Nat) (owner : NodeId) (scope : List Nat) :
    List Tree → Array Value → Except ExtractError (Array Value)
  | [], vs => .ok vs
  | x :: xs, vs => do
    let vs ← x.collect arity owner scope vs
    collectAll arity owner scope xs vs

end

end Tree

/-- A skeleton under construction, and the constants taken out so far. -/
structure Draft where
  arena : Arena
  values : Array Value

namespace Draft

def empty : Draft := ⟨.empty, #[]⟩

/-- Appends a node. -/
def push (d : Draft) (kind : Kind) (ty : Ty) : NodeId × Draft :=
  let (id, arena) := d.arena.push kind ty
  (id, { d with arena })

/-- Takes a constant out and appends its placeholder, numbered after the declared parameters. -/
def placeholder (d : Draft) (arity : Nat) (value : Value) (ty : Ty) : NodeId × Draft :=
  let (id, arena) := d.arena.push (.param (arity + d.values.size)) ty
  (id, ⟨arena, d.values.push value⟩)

/-- Appends a child list and the node that owns it. -/
def pushOver (d : Draft) (ids : List NodeId) (kind : Range → Kind) (ty : Ty) : NodeId × Draft :=
  let (range, arena) := d.arena.pushList ids
  let grown : Draft := { d with arena }
  grown.push (kind range) ty

end Draft

namespace Tree

mutual

/-- Checks the tree and lays it out in the draft, children first; returns the id of its root there.
-/
def layOut (arity : Nat) (owner : NodeId) (scope : List Nat) :
    Tree → Draft → Except ExtractError (NodeId × Draft)
  | dangling id, _ => .error (.forwardReference owner id)
  | const site v, d => do
    site.checkConst v
    return d.placeholder arity v site.ty
  | param site i, d => do
    site.checkParam arity i
    return d.push (.param i) site.ty
  | localVar site slot, d => do
    site.checkLocal scope slot
    return d.push (.localVar slot) site.ty
  | unary site op x, d => do
    let (x, d) ← x.layOut arity site.id scope d
    return d.push (.unary op x) site.ty
  | binary site op l r, d => do
    let (l, d) ← l.layOut arity site.id scope d
    let (r, d) ← r.layOut arity site.id scope d
    return d.push (.binary op l r) site.ty
  | ite site c t e, d => do
    let (c, d) ← c.layOut arity site.id scope d
    let (t, d) ← t.layOut arity site.id scope d
    let (e, d) ← e.layOut arity site.id scope d
    return d.push (.ite c t e) site.ty
  | letIn site slot i b, d => do
    let (i, d) ← i.layOut arity site.id scope d
    let (b, d) ← b.layOut arity site.id (slot :: scope) d
    return d.push (.letIn slot i b) site.ty
  | list site xs, d => do
    let (ids, d) ← layOutAll arity site.id scope xs d
    return d.pushOver ids .list site.ty
  | index site r i, d => do
    let (r, d) ← r.layOut arity site.id scope d
    let (i, d) ← i.layOut arity site.id scope d
    return d.push (.index r i) site.ty
  | call site f xs, d => do
    let (ids, d) ← layOutAll arity site.id scope xs d
    return d.pushOver ids (.call f) site.ty
  | raggedList site, _ => .error (.danglingList site.id)
  | raggedCall site _, _ => .error (.danglingList site.id)

/-- The children of a list or a call, in order. -/
def layOutAll (arity : Nat) (owner : NodeId) (scope : List Nat) :
    List Tree → Draft → Except ExtractError (List NodeId × Draft)
  | [], d => .ok ([], d)
  | x :: xs, d => do
    let (id, d) ← x.layOut arity owner scope d
    let (ids, d) ← layOutAll arity owner scope xs d
    return (id :: ids, d)

end

end Tree

/-- An expression split into its skeleton and its constants. -/
structure Extracted where
  skeleton : Lambda
  values : List Value
deriving Inhabited

/-- The placeholder parameters for constants, numbered from `first` on. -/
def placeholders (first : Nat) : List Value → List Param
  | [] => []
  | v :: vs => ⟨"$" ++ toString first, v.ty⟩ :: placeholders (first + 1) vs

namespace Lambda

/-- The root is in the arena. -/
def checkRoot (e : Lambda) : Except ExtractError Unit :=
  if e.root < e.arena.size then .ok () else .error (.danglingRoot e.root e.arena.size)

/-- The skeleton of a well-formed expression and its constants. -/
def extract (e : Lambda) : Except ExtractError Extracted := do
  e.checkRoot
  let (root, draft) ← e.tree.layOut e.arity e.root [] .empty
  let values := draft.values.toList
  return ⟨⟨e.params ++ placeholders 0 values, draft.arena, root⟩, values⟩

/-- The constants of a well-formed expression. -/
def extractValues (e : Lambda) : Except ExtractError (List Value) := do
  e.checkRoot
  let values ← e.tree.collect e.arity e.root [] #[]
  return values.toList

end Lambda

end Stencil
