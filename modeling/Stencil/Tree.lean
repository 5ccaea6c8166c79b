import Stencil.Lambda.Basic

/-!
# Expressions as trees

`Arena.unfold` gives the tree below a node. A child must come before its parent in the arena, so the
trees of all nodes can be grown in the order of their ids, each from those before it
(`Arena.trees`); a node that is used several times occurs several times in a tree, but is grown only
once. A reference to a node that does not come before, or that is not in the arena, becomes a
`Tree.dangling` leaf, and a list or call whose range runs past the child table becomes a
`Tree.raggedList` or `Tree.raggedCall` leaf. `Arena.unfold_eq` is the rule that determines the
trees.

All analyses that read an expression top-down are functions of this tree. Each node keeps its
`Site`, so that they can say where in the arena they found a fault.
-/

namespace Stencil

/-- Where a tree's node stands in the arena, and its static type. -/
structure Site where
  id : NodeId
  ty : Ty
deriving DecidableEq, Inhabited

/-- The unfolding of a node. -/
inductive Tree where
  /-- A reference that cannot be followed. -/
  | dangling (id : NodeId)
  | const (site : Site) (value : Value)
  | param (site : Site) (index : Nat)
  | localVar (site : Site) (slot : Nat)
  | unary (site : Site) (op : UnaryOp) (operand : Tree)
  | binary (site : Site) (op : BinaryOp) (left right : Tree)
  | ite (site : Site) (cond thenTree elseTree : Tree)
  | letIn (site : Site) (slot : Nat) (init body : Tree)
  | list (site : Site) (items : List Tree)
  | index (site : Site) (receiver position : Tree)
  | call (site : Site) (f : Builtin) (args : List Tree)
  /-- A list literal whose range runs past the child table. -/
  | raggedList (site : Site)
  /-- A call whose range runs past the child table. -/
  | raggedCall (site : Site) (f : Builtin)
deriving Inhabited

namespace Arena

/-- The tree of a node, given the trees of its children. -/
def grow (a : Arena) (id : NodeId) (node : Node) (child : NodeId → Tree) : Tree :=
  match node.kind with
  | .const value => .const ⟨id, node.ty⟩ value
  | .param i => .param ⟨id, node.ty⟩ i
  | .localVar slot => .localVar ⟨id, node.ty⟩ slot
  | .unary op x => .unary ⟨id, node.ty⟩ op (child x)
  | .binary op l r => .binary ⟨id, node.ty⟩ op (child l) (child r)
  | .ite c t e => .ite ⟨id, node.ty⟩ (child c) (child t) (child e)
  | .letIn slot i b => .letIn ⟨id, node.ty⟩ slot (child i) (child b)
  | .list r =>
    match a.list? r with
    | some ids => .list ⟨id, node.ty⟩ (ids.map child)
    | none => .raggedList ⟨id, node.ty⟩
  | .index r i => .index ⟨id, node.ty⟩ (child r) (child i)
  | .call f r =>
    match a.list? r with
    | some ids => .call ⟨id, node.ty⟩ f (ids.map child)
    | none => .raggedCall ⟨id, node.ty⟩ f

/-- Grows the trees of further nodes onto those of the nodes before them. -/
def growAll (a : Arena) : List Node → Array Tree → Array Tree
  | [], trees => trees
  | n :: ns, trees =>
    a.growAll ns (trees.push (a.grow trees.size n fun c => trees.getD c (.dangling c)))

/-- The trees of all nodes, by id. -/
def trees (a : Arena) : Array Tree := a.growAll a.nodes.toList #[]

/-- The tree below a node. -/
def unfold (a : Arena) (id : NodeId) : Tree := a.trees.getD id (.dangling id)

/-- Growing further trees leaves those that stand alone. -/
theorem growAll_getElem?_of_lt (a : Arena) (ns : List Node) (trees : Array Tree) {i : Nat}
    (h : i < trees.size) : (a.growAll ns trees)[i]? = trees[i]? := by
  induction ns generalizing trees with
  | nil => rfl
  | cons n ns ih =>
    rw [growAll, ih _ (by rw [Array.size_push]; omega), Array.getElem?_push_lt h,
      Array.getElem?_eq_getElem h]

/-- A grown tree has the trees of earlier nodes as its children. -/
theorem growAll_getElem? (a : Arena) (ns : List Node) (trees : Array Tree) (j : Nat) :
    (a.growAll ns trees)[trees.size + j]? = ns[j]?.map fun n =>
      a.grow (trees.size + j) n fun c =>
        if c < trees.size + j then (a.growAll ns trees).getD c (.dangling c) else .dangling c := by
  induction ns generalizing trees j with
  | nil => simp [growAll]
  | cons n ns ih =>
    cases j with
    | zero =>
      have hfirst {i : Nat} (hi : i < trees.size) := a.growAll_getElem?_of_lt (n :: ns) trees hi
      rw [growAll, growAll_getElem?_of_lt _ _ _ (by rw [Array.size_push]; omega)]
      simp only [Nat.add_zero, Array.getElem?_push_size, List.getElem?_cons_zero, Option.map_some,
        Option.some.injEq]
      congr 1
      funext c
      by_cases hc : c < trees.size
      · rw [if_pos hc, Array.getD_eq_getD_getElem?, Array.getD_eq_getD_getElem?, ← growAll,
          hfirst hc]
      · rw [if_neg hc, Array.getD_eq_getD_getElem?, Array.getElem?_eq_none (Nat.not_lt.mp hc),
          Option.getD_none]
    | succ j =>
      have h := ih (trees.push (a.grow trees.size n fun c => trees.getD c (.dangling c))) j
      rw [Array.size_push, Nat.add_assoc, Nat.add_comm 1 j] at h
      rw [growAll, h, List.getElem?_cons_succ]

/-- The tree below a node is the node over the trees below its children, each of which must come
before it. -/
theorem unfold_eq (a : Arena) (id : NodeId) :
    a.unfold id =
      match a.get? id with
      | none => .dangling id
      | some node => a.grow id node fun c => if c < id then a.unfold c else .dangling c := by
  have h := a.growAll_getElem? a.nodes.toList #[] id
  rw [show (#[] : Array Tree).size = 0 from rfl, Nat.zero_add] at h
  show (a.growAll a.nodes.toList #[]).getD id (.dangling id) = _
  rw [Array.getD_eq_getD_getElem?, h, Array.getElem?_toList, get?]
  cases a.nodes[id]? with
  | none => rfl
  | some node => rfl

end Arena

/-- The tree below the root. -/
def Lambda.tree (e : Lambda) : Tree := e.arena.unfold e.root

end Stencil
