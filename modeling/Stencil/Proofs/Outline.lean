import Stencil.Proofs.Skeleton

/-!
# Outlines: what the comparison of shapes sees

The outline of a node is the tree of all that can be reached from it, each node
with its label and its static type over the outlines of its children in order.
It is read off the arena node by node (`Arena.outline?`), and there is none if
somewhere below a reference leaves the arena or leads to a node that does not
come before, or if a child list runs past the table.

Two expressions have the same shape exactly if they have the same parameter types
and one outline (`Lambda.sameShape_iff_same_outline`). The link is the form of a
node, of which the outline is a function (`Arena.outline?_eq_form?`); a form's
shape can be told from its outline (`Form.shape_outline`), so nothing that the
comparison looks at is lost.

Whether there is an outline can be said without building one: every node that is
reached has to be in order by itself (`Arena.isSome_outline?_iff`).
-/

namespace Stencil

/-- What an outline keeps of the kind of a node: all but the ids of its children
and the value of a constant. -/
inductive Label where
  | const
  | param (index : Nat)
  | localVar (slot : Nat)
  | unary (op : UnaryOp)
  | binary (op : BinaryOp)
  | ite
  | letIn (slot : Nat)
  | list
  | index
  | call (f : Builtin)
deriving DecidableEq

def Kind.label : Kind → Label
  | const _ => .const
  | param i => .param i
  | localVar slot => .localVar slot
  | unary op _ => .unary op
  | binary op _ _ => .binary op
  | ite _ _ _ => .ite
  | letIn slot _ _ => .letIn slot
  | list _ => .list
  | index _ _ => .index
  | call f _ => .call f

/-- A tree of labels and static types. -/
inductive Outline where
  | node (label : Label) (ty : Ty) (children : List Outline)

/-- The outline of a node. -/
def Arena.outline? (a : Arena) (id : NodeId) : Option Outline := do
  let node ← a.get? id
  let ids ← a.children? node.kind
  let children ← ids.mapM fun c => if c < id then a.outline? c else none
  return .node node.kind.label node.ty children
termination_by id

/-- The parameter types and the outline of the root. -/
def Lambda.outline? (e : Lambda) : Option (List Ty × Outline) := do
  return (e.paramTypes, ← e.arena.outline? e.root)

/-! ### Outlines of forms -/

namespace Form

variable {κ : Type}

mutual

def outline : Form κ → Outline
  | const t _ => .node .const t []
  | param t i => .node (.param i) t []
  | localVar t slot => .node (.localVar slot) t []
  | unary t op x => .node (.unary op) t [x.outline]
  | binary t op l r => .node (.binary op) t [l.outline, r.outline]
  | ite t c x y => .node .ite t [c.outline, x.outline, y.outline]
  | letIn t slot i b => .node (.letIn slot) t [i.outline, b.outline]
  | list t xs => .node .list t (outlines xs)
  | index t r i => .node .index t [r.outline, i.outline]
  | call t f xs => .node (.call f) t (outlines xs)

def outlines : List (Form κ) → List Outline
  | [] => []
  | x :: xs => x.outline :: outlines xs

end

end Form

namespace Outline

mutual

/-- The shape with the given outline. The last case is not the outline of any form. -/
def shape : Outline → Form Unit
  | node (.param i) t [] => .param t i
  | node (.localVar slot) t [] => .localVar t slot
  | node (.unary op) t [x] => .unary t op x.shape
  | node (.binary op) t [x, y] => .binary t op x.shape y.shape
  | node .ite t [x, y, z] => .ite t x.shape y.shape z.shape
  | node (.letIn slot) t [x, y] => .letIn t slot x.shape y.shape
  | node .list t xs => .list t (shapes xs)
  | node .index t [x, y] => .index t x.shape y.shape
  | node (.call f) t xs => .call t f (shapes xs)
  | node _ t _ => .const t ()

def shapes : List Outline → List (Form Unit)
  | [] => []
  | x :: xs => x.shape :: shapes xs

end

end Outline

namespace Form

variable {κ μ : Type}

mutual

/-- The shape of a form can be told from its outline. -/
theorem shape_outline : (f : Form κ) → f.outline.shape = f.shape
  | const _ _ | param _ _ | localVar _ _ => rfl
  | unary _ _ x => by simp [outline, Outline.shape, shape_outline x]
  | binary _ _ l r | letIn _ _ l r | index _ l r => by
    simp [outline, Outline.shape, shape_outline l, shape_outline r]
  | ite _ c x y => by
    simp [outline, Outline.shape, shape_outline c, shape_outline x, shape_outline y]
  | list _ xs | call _ _ xs => by simp [outline, Outline.shape, shapes_outlines xs]

theorem shapes_outlines : (fs : List (Form κ)) → Outline.shapes (outlines fs) = shapes fs
  | [] => rfl
  | x :: xs => by simp [outlines, Outline.shapes, shape_outline x, shapes_outlines xs]

end

mutual

/-- The outline forgets the values of constants. -/
theorem outline_shape : (f : Form κ) → f.shape.outline = f.outline
  | const _ _ | param _ _ | localVar _ _ => rfl
  | unary _ _ x => by simp [outline, outline_shape x]
  | binary _ _ l r | letIn _ _ l r | index _ l r => by
    simp [outline, outline_shape l, outline_shape r]
  | ite _ c x y => by simp [outline, outline_shape c, outline_shape x, outline_shape y]
  | list _ xs | call _ _ xs => by simp [outline, outlines_shapes xs]

theorem outlines_shapes : (fs : List (Form κ)) → outlines (shapes fs) = outlines fs
  | [] => rfl
  | x :: xs => by simp [outlines, outline_shape x, outlines_shapes xs]

end

theorem outline_eq_iff {f : Form κ} {g : Form μ} : f.outline = g.outline ↔ f.shape = g.shape := by
  constructor
  · intro h
    rw [← shape_outline f, h, shape_outline g]
  · intro h
    rw [← outline_shape f, h, outline_shape g]

end Form

namespace Arena

theorem outline?_eq (a : Arena) (id : NodeId) :
    a.outline? id = (a.get? id).bind fun node => (a.children? node.kind).bind fun ids =>
      (ids.mapM fun c => if c < id then a.outline? c else none).map
        (.node node.kind.label node.ty) := by
  rw [outline?]
  simp only [Option.bind_eq_bind, Option.pure_def, Option.map_eq_bind, Function.comp_def]

theorem exists_of_outline? {a : Arena} {id : NodeId} {o : Outline} (h : a.outline? id = some o) :
    ∃ node ids os, a.get? id = some node ∧ a.children? node.kind = some ids ∧
      ids.mapM (fun c => if c < id then a.outline? c else none) = some os ∧
      o = .node node.kind.label node.ty os := by
  rw [outline?_eq, Option.bind_eq_some_iff] at h
  obtain ⟨node, hnode, h⟩ := h
  obtain ⟨ids, hids, h⟩ := Option.bind_eq_some_iff.mp h
  obtain ⟨os, hos, rfl⟩ := Option.map_eq_some_iff.mp h
  exact ⟨node, ids, os, hnode, hids, hos, rfl⟩

theorem mapM_outline (child : NodeId → Option (Form Value)) (ids : List NodeId) :
    ids.mapM (fun c => (child c).map Form.outline) = (ids.mapM child).map Form.outlines := by
  induction ids with
  | nil => rfl
  | cons id ids ih =>
    rw [List.mapM_cons, List.mapM_cons, ih]
    cases child id <;> cases List.mapM child ids <;> rfl

/-- The outline of a node that is composed from forms is its label over theirs. -/
theorem outline_compose (a : Arena) (node : Node) (child : NodeId → Option (Form Value)) :
    (a.compose node child).map Form.outline
      = (a.children? node.kind).bind fun ids =>
        (ids.mapM fun c => (child c).map Form.outline).map (.node node.kind.label node.ty) := by
  obtain ⟨kind, ty⟩ := node
  cases kind with
  | const v | param i | localVar slot => rfl
  | unary op x =>
    simp only [compose, children?, Option.bind_some, mapM_outline, List.mapM_cons, List.mapM_nil]
    cases child x <;> rfl
  | binary op x y | letIn slot x y | index x y =>
    simp only [compose, children?, Option.bind_some, mapM_outline, List.mapM_cons, List.mapM_nil]
    cases child x <;> cases child y <;> rfl
  | ite x y z =>
    simp only [compose, children?, Option.bind_some, mapM_outline, List.mapM_cons, List.mapM_nil]
    cases child x <;> cases child y <;> cases child z <;> rfl
  | list r | call f r =>
    simp only [compose, children?, mapM_outline]
    cases a.list? r with
    | none => rfl
    | some ids =>
      simp only [Option.bind_eq_bind, Option.bind_some]
      cases List.mapM child ids <;> rfl

/-- A node has an outline exactly if it has a form, and then it is that of the form. -/
theorem outline?_eq_form? (a : Arena) (id : NodeId) :
    a.outline? id = (a.form? id).map Form.outline := by
  induction id using Nat.strongRecOn with
  | ind id ih =>
    have hchild : (fun c => if c < id then a.outline? c else none)
        = fun c => (if c < id then a.form? c else none).map Form.outline := by
      funext c
      by_cases hc : c < id
      · rw [if_pos hc, if_pos hc, ih c hc]
      · rw [if_neg hc, if_neg hc]
        rfl
    rw [outline?_eq, form?_eq, hchild]
    cases a.get? id with
    | none => rfl
    | some node => exact (a.outline_compose node _).symm

theorem outline?_of_form? {a : Arena} {id : NodeId} {f : Form Value} (h : a.form? id = some f) :
    a.outline? id = some f.outline := by
  rw [outline?_eq_form?, h]
  rfl

theorem isSome_outline?_iff_form? (a : Arena) (id : NodeId) :
    (a.outline? id).isSome = true ↔ ∃ f, a.form? id = some f := by
  rw [outline?_eq_form?, Option.isSome_map, Option.isSome_iff_exists]

/-! ### Where there is an outline -/

/-- The second node is the first one or can be reached from it by references. -/
inductive Reaches (a : Arena) : NodeId → NodeId → Prop where
  | refl (id : NodeId) : a.Reaches id id
  | step {id c j : NodeId} {node : Node} {ids : List NodeId} :
      a.get? id = some node → a.children? node.kind = some ids → c ∈ ids → a.Reaches c j →
      a.Reaches id j

/-- The node is in the arena, its child list in the table, and its children come
before it. -/
def ValidAt (a : Arena) (id : NodeId) : Prop :=
  ∃ node ids, a.get? id = some node ∧ a.children? node.kind = some ids ∧ ∀ c ∈ ids, c < id

theorem ValidAt.children {a : Arena} {id : NodeId} (h : a.ValidAt id) {node : Node}
    (hnode : a.get? id = some node) :
    ∃ ids, a.children? node.kind = some ids ∧ ∀ c ∈ ids, c < id := by
  obtain ⟨node', ids, hnode', hids, hlt⟩ := h
  cases hnode.symm.trans hnode'
  exact ⟨ids, hids, hlt⟩

theorem getElem?_mapM {α β : Type} {f : α → Option β} {xs : List α} {ys : List β}
    (h : xs.mapM f = some ys) (k : Nat) :
    (xs[k]? = none ∧ ys[k]? = none) ∨ ∃ x y, xs[k]? = some x ∧ ys[k]? = some y ∧ f x = some y := by
  induction xs generalizing ys k with
  | nil =>
    cases h
    exact .inl ⟨rfl, rfl⟩
  | cons x xs ih =>
    simp only [List.mapM_cons, Option.bind_eq_bind, Option.bind_eq_some_iff] at h
    obtain ⟨y, hy, ys, hys, h⟩ := h
    cases h
    cases k with
    | zero => exact .inr ⟨x, y, rfl, rfl, hy⟩
    | succ k => exact ih hys k

theorem isSome_mapM {α β : Type} {f : α → Option β} (l : List α) :
    (l.mapM f).isSome = true ↔ ∀ x ∈ l, (f x).isSome = true := by
  induction l with
  | nil => simp
  | cons x l ih =>
    rw [List.mapM_cons, List.forall_mem_cons, ← ih]
    cases f x <;> cases List.mapM f l <;> simp

/-- One step: a node has an outline if it is valid and its children have one. -/
theorem isSome_outline?_eq (a : Arena) (id : NodeId) :
    (a.outline? id).isSome = true ↔ ∃ node ids, a.get? id = some node ∧
      a.children? node.kind = some ids ∧ ∀ c ∈ ids, c < id ∧ (a.outline? c).isSome = true := by
  have hguard (c : NodeId) : (if c < id then a.outline? c else none).isSome = true ↔
      c < id ∧ (a.outline? c).isSome = true := by
    by_cases hc : c < id
    · simp [hc]
    · simp [hc]
  rw [outline?_eq]
  cases hnode : a.get? id with
  | none => simp
  | some node =>
    cases hids : a.children? node.kind with
    | none => simp [hids]
    | some ids => simp [hids, isSome_mapM, hguard]

/-- A node has an outline exactly if all that can be reached from it is valid. -/
theorem isSome_outline?_iff (a : Arena) (id : NodeId) :
    (a.outline? id).isSome = true ↔ ∀ j, a.Reaches id j → a.ValidAt j := by
  constructor
  · intro h j hj
    induction hj with
    | refl id =>
      obtain ⟨node, ids, hnode, hids, hc⟩ := (a.isSome_outline?_eq id).mp h
      exact ⟨node, ids, hnode, hids, fun c hmem => (hc c hmem).1⟩
    | step hnode hids hmem _ ih =>
      obtain ⟨node, ids, hnode', hids', hc⟩ := (a.isSome_outline?_eq _).mp h
      cases hnode.symm.trans hnode'
      cases hids.symm.trans hids'
      exact ih (hc _ hmem).2
  · -- references lead to smaller ids as long as they are valid
    induction id using Nat.strongRecOn with
    | ind id ih =>
      intro h
      obtain ⟨node, ids, hnode, hids, hlt⟩ := h id (.refl id)
      refine (a.isSome_outline?_eq id).mpr ⟨node, ids, hnode, hids, fun c hc => ⟨hlt c hc, ?_⟩⟩
      exact ih c (hlt c hc) fun j hj => h j (.step hnode hids hc hj)

end Arena

namespace Lambda

/-- Every node that the root reaches is valid. -/
def Valid (e : Lambda) : Prop := ∀ id, e.arena.Reaches e.root id → e.arena.ValidAt id

theorem outline?_eq_some_iff {e : Lambda} {types : List Ty} {o : Outline} :
    e.outline? = some (types, o) ↔
      e.paramTypes = types ∧ ∃ f, e.tree.form? = some f ∧ f.outline = o := by
  have hform : e.arena.outline? e.root = e.tree.form?.map Form.outline :=
    e.arena.outline?_eq_form? e.root
  simp only [outline?, hform, Option.bind_eq_bind, Option.bind_eq_some_iff, Option.map_eq_some_iff,
    Option.pure_def, Option.some.injEq, Prod.mk.injEq]
  constructor
  · rintro ⟨_, ⟨f, hf, rfl⟩, hp, ho⟩
    exact ⟨hp, f, hf, ho⟩
  · rintro ⟨hp, f, hf, ho⟩
    exact ⟨_, ⟨f, hf, rfl⟩, hp, ho⟩

theorem sameShape_iff_outline? {a b : Lambda} :
    a.sameShape b = true ↔ ∃ o, a.outline? = some o ∧ b.outline? = some o := by
  rw [sameShape_iff]
  constructor
  · rintro ⟨hp, f, g, hf, hg, hfg⟩
    exact ⟨(b.paramTypes, g.outline),
      outline?_eq_some_iff.mpr ⟨hp, f, hf, Form.outline_eq_iff.mpr hfg⟩,
      outline?_eq_some_iff.mpr ⟨rfl, g, hg, rfl⟩⟩
  · rintro ⟨⟨types, o⟩, ha, hb⟩
    obtain ⟨hp, f, hf, hfo⟩ := outline?_eq_some_iff.mp ha
    obtain ⟨hq, g, hg, hgo⟩ := outline?_eq_some_iff.mp hb
    exact ⟨hp.trans hq.symm, f, g, hf, hg, Form.outline_eq_iff.mp (hfo.trans hgo.symm)⟩

theorem sameShape_self_iff {e : Lambda} : e.sameShape e = true ↔ e.Valid := by
  rw [sameShape_iff_outline?, Valid, ← Arena.isSome_outline?_iff, outline?]
  cases e.arena.outline? e.root <;> simp

/-- The comparison accepts two expressions exactly if both have an outline and
the two are equal. So it is symmetric and transitive, and reflexive on exactly
those expressions in which every node that the root reaches is valid, which takes
in all that can be extracted. -/
theorem sameShape_iff_same_outline (a b c : Lambda) :
    (a.sameShape b = true ↔ ∃ o, a.outline? = some o ∧ b.outline? = some o) ∧
    a.sameShape b = b.sameShape a ∧
    (a.sameShape b = true → b.sameShape c = true → a.sameShape c = true) ∧
    (a.sameShape a = true ↔ a.Valid) ∧
    (∀ x, a.extract = .ok x → a.sameShape a = true) := by
  refine ⟨sameShape_iff_outline?, ?_, sameShape_trans, sameShape_self_iff, ?_⟩
  · rw [Bool.eq_iff_iff]
    exact ⟨sameShape_symm, sameShape_symm⟩
  · intro x hx
    obtain ⟨f, hf, -⟩ := extract_ok hx
    exact sameShape_iff.mpr ⟨rfl, f, f, hf.form, hf.form, rfl⟩

end Lambda

end Stencil
