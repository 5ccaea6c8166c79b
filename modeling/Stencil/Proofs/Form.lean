import Stencil.Tree

/-!
# Forms: expressions without their arena

A `Form` is what is left of an expression once every reference has been
followed: the nodes with their static types, and no ids. Its constants may be
anything, so `Form Value` is an expression, `Form Unit` is its shape, and
`Form Ty` keeps of each constant the type that its node records.

`Tree.form?` is the form of a tree without a fault, `Arena.form?` that of a
node. The rule for the latter is `Arena.form?_eq`: the form of a node is the
node over the forms of its children (`Arena.compose`), each of which must come
before it. Facts about forms in an arena follow from it by induction on the id;
what is special to a kind of node is in a lemma on `Arena.compose` each time.
Here that is done for a larger arena (`Arena.Within.form?`) and for an arena
whose leaves are rewritten (`Arena.form?_mapKinds`).
-/

namespace Stencil

/-- An expression with every reference followed, over constants of any kind. -/
inductive Form (κ : Type) where
  | const (ty : Ty) (value : κ)
  | param (ty : Ty) (index : Nat)
  | localVar (ty : Ty) (slot : Nat)
  | unary (ty : Ty) (op : UnaryOp) (operand : Form κ)
  | binary (ty : Ty) (op : BinaryOp) (left right : Form κ)
  | ite (ty : Ty) (cond thenForm elseForm : Form κ)
  | letIn (ty : Ty) (slot : Nat) (init body : Form κ)
  | list (ty : Ty) (items : List (Form κ))
  | index (ty : Ty) (receiver position : Form κ)
  | call (ty : Ty) (f : Builtin) (args : List (Form κ))

namespace Tree

mutual

/-- The form of a tree in which nothing dangles. -/
def form? : Tree → Option (Form Value)
  | dangling _ | raggedList _ | raggedCall _ _ => none
  | const site v => some (.const site.ty v)
  | param site i => some (.param site.ty i)
  | localVar site slot => some (.localVar site.ty slot)
  | unary site op x => do return .unary site.ty op (← x.form?)
  | binary site op l r => do return .binary site.ty op (← l.form?) (← r.form?)
  | ite site c t e => do return .ite site.ty (← c.form?) (← t.form?) (← e.form?)
  | letIn site slot i b => do return .letIn site.ty slot (← i.form?) (← b.form?)
  | list site xs => do return .list site.ty (← formAll? xs)
  | index site r i => do return .index site.ty (← r.form?) (← i.form?)
  | call site f xs => do return .call site.ty f (← formAll? xs)

/-- The forms of several trees. -/
def formAll? : List Tree → Option (List (Form Value))
  | [] => some []
  | x :: xs => do return (← x.form?) :: (← formAll? xs)

end

theorem formAll?_map (child : NodeId → Tree) (ids : List NodeId) :
    formAll? (ids.map child) = ids.mapM fun c => (child c).form? := by
  induction ids with
  | nil => rfl
  | cons id ids ih => rw [List.map_cons, formAll?, ih, List.mapM_cons]

end Tree

namespace Form

variable {κ μ ν : Type}

/-- The static type of the root. -/
def ty : Form κ → Ty
  | const t _ | param t _ | localVar t _ | unary t _ _ | binary t _ _ _ | ite t _ _ _
  | letIn t _ _ _ | list t _ | index t _ _ | call t _ _ => t

mutual

/-- Puts a form in the place of every constant and of every parameter. -/
def subst (onConst : Ty → κ → Form μ) (onParam : Ty → Nat → Form μ) : Form κ → Form μ
  | const t v => onConst t v
  | param t i => onParam t i
  | localVar t slot => .localVar t slot
  | unary t op x => .unary t op (x.subst onConst onParam)
  | binary t op l r => .binary t op (l.subst onConst onParam) (r.subst onConst onParam)
  | ite t c x y =>
    .ite t (c.subst onConst onParam) (x.subst onConst onParam) (y.subst onConst onParam)
  | letIn t slot i b => .letIn t slot (i.subst onConst onParam) (b.subst onConst onParam)
  | list t xs => .list t (substAll onConst onParam xs)
  | index t r i => .index t (r.subst onConst onParam) (i.subst onConst onParam)
  | call t f xs => .call t f (substAll onConst onParam xs)

def substAll (onConst : Ty → κ → Form μ) (onParam : Ty → Nat → Form μ) :
    List (Form κ) → List (Form μ)
  | [] => []
  | x :: xs => x.subst onConst onParam :: substAll onConst onParam xs

end

/-- Changes the constants, each given its node's type. -/
def map (g : Ty → κ → μ) (f : Form κ) : Form μ := f.subst (fun t v => .const t (g t v)) .param

/-- The form without the values of its constants. -/
def shape (f : Form κ) : Form Unit := f.map fun _ _ => ()

mutual

/-- The constants from left to right. -/
def consts : Form κ → List κ
  | const _ v => [v]
  | param _ _ | localVar _ _ => []
  | unary _ _ x => x.consts
  | binary _ _ l r => l.consts ++ r.consts
  | ite _ c t e => c.consts ++ (t.consts ++ e.consts)
  | letIn _ _ i b => i.consts ++ b.consts
  | list _ xs => constsAll xs
  | index _ r i => r.consts ++ i.consts
  | call _ _ xs => constsAll xs

def constsAll : List (Form κ) → List κ
  | [] => []
  | x :: xs => x.consts ++ constsAll xs

end

end Form

namespace Arena

/-- The form of a node, given the forms of its children. -/
def compose (a : Arena) (node : Node) (child : NodeId → Option (Form Value)) :
    Option (Form Value) :=
  match node.kind with
  | .const v => some (.const node.ty v)
  | .param i => some (.param node.ty i)
  | .localVar slot => some (.localVar node.ty slot)
  | .unary op x => do return .unary node.ty op (← child x)
  | .binary op l r => do return .binary node.ty op (← child l) (← child r)
  | .ite c t e => do return .ite node.ty (← child c) (← child t) (← child e)
  | .letIn slot i b => do return .letIn node.ty slot (← child i) (← child b)
  | .list r => do return .list node.ty (← (← a.list? r).mapM child)
  | .index r i => do return .index node.ty (← child r) (← child i)
  | .call f r => do return .call node.ty f (← (← a.list? r).mapM child)

theorem form?_grow (a : Arena) (id : NodeId) (node : Node) (child : NodeId → Tree) :
    (a.grow id node child).form? = a.compose node fun c => (child c).form? := by
  obtain ⟨kind, ty⟩ := node
  cases kind with
  | list r =>
    simp only [grow, compose]
    cases a.list? r with
    | none => rfl
    | some ids => simp only [Tree.form?, Tree.formAll?_map]; rfl
  | call f r =>
    simp only [grow, compose]
    cases a.list? r with
    | none => rfl
    | some ids => simp only [Tree.form?, Tree.formAll?_map]; rfl
  | _ => rfl

/-- The form of a node. -/
def form? (a : Arena) (id : NodeId) : Option (Form Value) := (a.unfold id).form?

/-- The form of a node is the node over the forms of its children, each of
which must come before it. -/
theorem form?_eq (a : Arena) (id : NodeId) :
    a.form? id = (a.get? id).bind fun node =>
      a.compose node fun c => if c < id then a.form? c else none := by
  rw [form?, unfold_eq]
  cases a.get? id with
  | none => rfl
  | some node =>
    simp only [Option.bind_some, form?_grow]
    congr 1
    funext c
    by_cases hc : c < id
    · rw [if_pos hc, if_pos hc, form?]
    · -- a reference to a later node dangles in the tree
      rw [if_neg hc, if_neg hc, Tree.form?]

theorem mapM_map_of {α β γ : Type} {f : α → Option β} {g : α → Option γ} {k : β → γ}
    (h : ∀ x y, f x = some y → g x = some (k y)) {xs : List α} {ys : List β}
    (hxs : xs.mapM f = some ys) : xs.mapM g = some (ys.map k) := by
  induction xs generalizing ys with
  | nil =>
    cases hxs
    rfl
  | cons x xs ih =>
    simp only [List.mapM_cons, Option.bind_eq_bind, Option.bind_eq_some_iff] at hxs
    obtain ⟨y, hy, ys, hys, hout⟩ := hxs
    cases hout
    rw [List.mapM_cons, h x y hy, ih hys]
    rfl

theorem mapM_mono {α β : Type} {f g : α → Option β} (h : ∀ x y, f x = some y → g x = some y)
    {xs : List α} {ys : List β} (hxs : xs.mapM f = some ys) : xs.mapM g = some ys := by
  simpa using mapM_map_of (k := id) h hxs

/-- More forms of children, and more child lists, only give more forms. -/
theorem compose_mono {a b : Arena} (hlist : ∀ r ids, a.list? r = some ids → b.list? r = some ids)
    {child child' : NodeId → Option (Form Value)}
    (hchild : ∀ c f, child c = some f → child' c = some f) {node : Node} {f : Form Value}
    (h : a.compose node child = some f) : b.compose node child' = some f := by
  obtain ⟨kind, ty⟩ := node
  cases kind <;> simp only [compose, Option.bind_eq_bind, Option.bind_eq_some_iff] at h ⊢
  case unary =>
    obtain ⟨x, hx, h⟩ := h
    exact ⟨x, hchild _ _ hx, h⟩
  case binary | letIn | index =>
    obtain ⟨x, hx, y, hy, h⟩ := h
    exact ⟨x, hchild _ _ hx, y, hchild _ _ hy, h⟩
  case ite =>
    obtain ⟨x, hx, y, hy, z, hz, h⟩ := h
    exact ⟨x, hchild _ _ hx, y, hchild _ _ hy, z, hchild _ _ hz, h⟩
  case list | call =>
    obtain ⟨ids, hids, fs, hfs, h⟩ := h
    exact ⟨ids, hlist _ _ hids, fs, mapM_mono hchild hfs, h⟩
  all_goals exact h

/-- Every node and every child list of the first arena stands in the second at
the same place. -/
structure Within (a b : Arena) : Prop where
  node : ∀ id n, a.get? id = some n → b.get? id = some n
  ids : ∀ r l, a.list? r = some l → b.list? r = some l

theorem Within.refl (a : Arena) : a.Within a := ⟨fun _ _ h => h, fun _ _ h => h⟩

theorem Within.trans {a b c : Arena} (hab : a.Within b) (hbc : b.Within c) : a.Within c :=
  ⟨fun id n h => hbc.node id n (hab.node id n h), fun r l h => hbc.ids r l (hab.ids r l h)⟩

theorem Within.children? {a b : Arena} (hab : a.Within b) {kind : Kind} {ids : List NodeId}
    (h : a.children? kind = some ids) : b.children? kind = some ids := by
  cases kind with
  | list r | call f r => exact hab.ids r ids h
  | _ => exact h

/-- A node keeps its form in a larger arena. -/
theorem Within.form? {a b : Arena} (hab : a.Within b) (id : NodeId) (f : Form Value)
    (h : a.form? id = some f) : b.form? id = some f := by
  induction id using Nat.strongRecOn generalizing f with
  | ind id ih =>
    rw [form?_eq, Option.bind_eq_some_iff] at h ⊢
    obtain ⟨node, hnode, h⟩ := h
    refine ⟨node, hab.node _ _ hnode, compose_mono hab.ids ?_ h⟩
    -- a child that does not come before its parent has no form on either side
    intro c g hg
    by_cases hc : c < id
    · rw [if_pos hc] at hg ⊢
      exact ih c hc g hg
    · rw [if_neg hc] at hg
      cases hg

/-- The change of kinds touches leaves only: constants become what `onConst`
says and parameters what `onParam` says. -/
structure Rewrites (g : Kind → Ty → Kind) (onConst : Ty → Value → Form Value)
    (onParam : Ty → Nat → Form Value) : Prop where
  const : ∀ (a : Arena) v t child, a.compose ⟨g (.const v) t, t⟩ child = some (onConst t v)
  param : ∀ (a : Arena) i t child, a.compose ⟨g (.param i) t, t⟩ child = some (onParam t i)
  other : ∀ kind t, (∀ v, kind ≠ .const v) → (∀ i, kind ≠ .param i) → g kind t = kind

section

variable {onConst : Ty → Value → Form Value} {onParam : Ty → Nat → Form Value}
  (child : NodeId → Option (Form Value))

theorem mapM_subst (ids : List NodeId) :
    ids.mapM (fun c => (child c).map (·.subst onConst onParam))
      = (ids.mapM child).map (Form.substAll onConst onParam) := by
  induction ids with
  | nil => rfl
  | cons id ids ih =>
    rw [List.mapM_cons, List.mapM_cons, ih]
    cases child id <;> cases List.mapM child ids <;> rfl

/-- A node that is neither a constant nor a parameter hands a substitution down to
its children. -/
theorem compose_subst {a b : Arena} (hlist : ∀ r, b.list? r = a.list? r) {node : Node}
    (hc : ∀ v, node.kind ≠ .const v) (hp : ∀ i, node.kind ≠ .param i) :
    b.compose node (fun c => (child c).map (·.subst onConst onParam))
      = (a.compose node child).map (·.subst onConst onParam) := by
  obtain ⟨kind, ty⟩ := node
  cases kind with
  | const v => exact absurd rfl (hc v)
  | param i => exact absurd rfl (hp i)
  | localVar slot => rfl
  | unary op x =>
    simp only [compose]
    cases child x <;> rfl
  | binary op x y | letIn slot x y | index x y =>
    simp only [compose]
    cases child x <;> cases child y <;> rfl
  | ite x y z =>
    simp only [compose]
    cases child x <;> cases child y <;> cases child z <;> rfl
  | list r | call f r =>
    simp only [compose, hlist, mapM_subst]
    cases a.list? r with
    | none => rfl
    | some ids =>
      simp only [Option.bind_eq_bind, Option.bind_some]
      cases List.mapM child ids <;> rfl

theorem compose_rewrite {g : Kind → Ty → Kind} (hg : Rewrites g onConst onParam) {a b : Arena}
    (hlist : ∀ r, b.list? r = a.list? r) (node : Node) :
    b.compose ⟨g node.kind node.ty, node.ty⟩ (fun c => (child c).map (·.subst onConst onParam))
      = (a.compose node child).map (·.subst onConst onParam) := by
  obtain ⟨kind, ty⟩ := node
  cases kind with
  | const v => exact hg.const b v ty _
  | param i => exact hg.param b i ty _
  | _ =>
    rw [hg.other _ _ (by simp) (by simp)]
    exact compose_subst child hlist (by simp) (by simp)

end

theorem get?_mapKinds (a : Arena) (g : Kind → Ty → Kind) (id : NodeId) :
    (a.mapKinds g).get? id = (a.get? id).map fun n => ⟨g n.kind n.ty, n.ty⟩ := by
  simp [get?, mapKinds]

/-- Rewriting the leaves of an arena rewrites the leaves of every form in it. -/
theorem form?_mapKinds {g : Kind → Ty → Kind} {onConst : Ty → Value → Form Value}
    {onParam : Ty → Nat → Form Value} (hg : Rewrites g onConst onParam) (a : Arena) (id : NodeId) :
    (a.mapKinds g).form? id = (a.form? id).map (·.subst onConst onParam) := by
  induction id using Nat.strongRecOn with
  | ind id ih =>
    have hchild : (fun c => if c < id then (a.mapKinds g).form? c else none)
        = fun c => (if c < id then a.form? c else none).map (·.subst onConst onParam) := by
      funext c
      by_cases hc : c < id
      · rw [if_pos hc, if_pos hc, ih c hc]
      · rw [if_neg hc, if_neg hc]; rfl
    rw [form?_eq, form?_eq a, get?_mapKinds, hchild]
    cases a.get? id with
    | none => rfl
    | some node => exact compose_rewrite _ hg (fun _ => rfl) node

end Arena

end Stencil
