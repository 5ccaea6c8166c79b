import Stencil.Proofs.Shape

/-!
# Laying forms out in an arena

`Form.hole` puts numbered parameters in the place of the constants of a form,
and `Form.write` lays a form out in an arena, children first.

What was written can be read back: the node that `Form.write` returns has the
form that was written (`Form.write_spec`). The shape of a form is recovered from
its holes by looking which parameters come after the declared ones
(`Form.refill_hole`); and since holes are numbered by position only, `Form.hole`
is a function of the shape (`Form.hole_shape`).
-/

namespace Stencil

/-- Appends a child list and the node that owns it. -/
def Arena.pushOver (a : Arena) (ids : List NodeId) (kind : Range → Kind) (ty : Ty) :
    NodeId × Arena :=
  (a.pushList ids).2.push (kind (a.pushList ids).1) ty

namespace Form

variable {κ μ : Type}

mutual

/-- The form with parameters in the place of its constants, numbered from
`next` on from left to right. -/
def hole (next : Nat) : Form κ → Form μ
  | const t _ => .param t next
  | param t i => .param t i
  | localVar t slot => .localVar t slot
  | unary t op x => .unary t op (x.hole next)
  | binary t op l r => .binary t op (l.hole next) (r.hole (next + l.consts.length))
  | ite t c x y =>
    .ite t (c.hole next) (x.hole (next + c.consts.length))
      (y.hole (next + c.consts.length + x.consts.length))
  | letIn t slot i b => .letIn t slot (i.hole next) (b.hole (next + i.consts.length))
  | list t xs => .list t (holeAll next xs)
  | index t r i => .index t (r.hole next) (i.hole (next + r.consts.length))
  | call t f xs => .call t f (holeAll next xs)

/-- The holes of several forms, numbered through. -/
def holeAll (next : Nat) : List (Form κ) → List (Form μ)
  | [] => []
  | x :: xs => x.hole next :: holeAll (next + x.consts.length) xs

end

mutual

/-- Every parameter is declared, every slot is read inside the body of its
`let`, and every constant carries its node's type. -/
def Proper (arity : Nat) (scope : List Nat) : Form Value → Prop
  | const t v => v.ty = t
  | param _ i => i < arity
  | localVar _ slot => slot ∈ scope
  | unary _ _ x => x.Proper arity scope
  | binary _ _ l r => l.Proper arity scope ∧ r.Proper arity scope
  | ite _ c x y => c.Proper arity scope ∧ x.Proper arity scope ∧ y.Proper arity scope
  | letIn _ slot i b => i.Proper arity scope ∧ b.Proper arity (slot :: scope)
  | list _ xs => AllProper arity scope xs
  | index _ r i => r.Proper arity scope ∧ i.Proper arity scope
  | call _ _ xs => AllProper arity scope xs

/-- All the forms are proper in the same scope. -/
def AllProper (arity : Nat) (scope : List Nat) : List (Form Value) → Prop
  | [] => True
  | x :: xs => x.Proper arity scope ∧ AllProper arity scope xs

end

mutual

/-- Lays the form out behind what is in the arena, children first; returns the
id of its root there. -/
def write : Form Value → Arena → NodeId × Arena
  | const t v, a => a.push (.const v) t
  | param t i, a => a.push (.param i) t
  | localVar t slot, a => a.push (.localVar slot) t
  | unary t op x, a =>
    let (x, a) := x.write a
    a.push (.unary op x) t
  | binary t op l r, a =>
    let (l, a) := l.write a
    let (r, a) := r.write a
    a.push (.binary op l r) t
  | ite t c x y, a =>
    let (c, a) := c.write a
    let (x, a) := x.write a
    let (y, a) := y.write a
    a.push (.ite c x y) t
  | letIn t slot i b, a =>
    let (i, a) := i.write a
    let (b, a) := b.write a
    a.push (.letIn slot i b) t
  | list t xs, a =>
    let (ids, a) := writeAll xs a
    a.pushOver ids .list t
  | index t r i, a =>
    let (r, a) := r.write a
    let (i, a) := i.write a
    a.push (.index r i) t
  | call t f xs, a =>
    let (ids, a) := writeAll xs a
    a.pushOver ids (.call f) t

/-- Lays out several forms one after the other; returns the ids of their roots. -/
def writeAll : List (Form Value) → Arena → List NodeId × Arena
  | [], a => ([], a)
  | x :: xs, a =>
    let (id, a) := x.write a
    let (ids, a) := writeAll xs a
    (id :: ids, a)

end

end Form

/-! ### Reading back what was written -/

namespace Arena

/-- A new node leaves the others in place. -/
theorem within_push (a : Arena) (kind : Kind) (ty : Ty) : a.Within (a.push kind ty).2 where
  node id n h := by
    obtain ⟨hid, -⟩ := Array.getElem?_eq_some_iff.mp h
    exact (Array.getElem?_push_lt hid).trans ((Array.getElem?_eq_getElem hid).symm.trans h)
  ids _ _ h := h

/-- A child list that was appended can be read. -/
theorem list?_pushList (a : Arena) (ids : List NodeId) :
    (a.pushList ids).2.list? (a.pushList ids).1 = some ids := by
  simp [pushList, list?]

theorem list?_eq_some_iff {a : Arena} {r : Range} {l : List NodeId} :
    a.list? r = some l ↔ r.start + r.len ≤ a.table.size ∧
      (a.table.extract r.start (r.start + r.len)).toList = l := by
  rw [list?]
  by_cases hr : r.start + r.len ≤ a.table.size
  · simp [hr]
  · simp [hr]

/-- A new child list leaves the others in place. -/
theorem within_pushList (a : Arena) (ids : List NodeId) : a.Within (a.pushList ids).2 where
  node _ _ h := h
  ids r l h := by
    obtain ⟨hr, hl⟩ := list?_eq_some_iff.mp h
    refine list?_eq_some_iff.mpr ⟨?_, ?_⟩
    · show r.start + r.len ≤ (a.table ++ ids.toArray).size
      rw [Array.size_append]
      omega
    · show ((a.table ++ ids.toArray).extract r.start (r.start + r.len)).toList = l
      rw [Array.extract_append, Nat.sub_eq_zero_of_le hr]
      simpa using hl

/-- Only what is in the arena has a form. -/
theorem form?_lt {a : Arena} {id : NodeId} {f : Form Value} (h : a.form? id = some f) :
    id < a.size := by
  rw [form?_eq, Option.bind_eq_some_iff] at h
  obtain ⟨node, hnode, -⟩ := h
  exact (Array.getElem?_eq_some_iff.mp hnode).1

/-- A new node has the form that its children in the arena make up. -/
theorem form?_push {a : Arena} {kind : Kind} {ty : Ty} {f : Form Value}
    (h : a.compose ⟨kind, ty⟩ a.form? = some f) :
    (a.push kind ty).2.form? (a.push kind ty).1 = some f := by
  have hnode : (a.push kind ty).2.get? (a.push kind ty).1 = some ⟨kind, ty⟩ :=
    Array.getElem?_push_size
  rw [form?_eq, hnode, Option.bind_some]
  refine compose_mono (a.within_push kind ty).ids ?_ h
  -- a child with a form is in the arena already, so it comes before the new node
  intro c g hg
  rw [if_pos (show c < (a.push kind ty).1 from form?_lt hg)]
  exact (a.within_push kind ty).form? c g hg

/-- So do the two together. -/
theorem within_pushOver (a : Arena) (ids : List NodeId) (kind : Range → Kind) (ty : Ty) :
    a.Within (a.pushOver ids kind ty).2 :=
  (a.within_pushList ids).trans (within_push _ _ _)

/-- The same for a node with a child list, where `g` makes its form from those
of the children. -/
theorem form?_pushOver {a : Arena} {ids : List NodeId} {fs : List (Form Value)}
    {kind : Range → Kind} {ty : Ty} {g : List (Form Value) → Form Value}
    (hkind : ∀ (b : Arena) r child,
      b.compose ⟨kind r, ty⟩ child = do return g (← (← b.list? r).mapM child))
    (hids : ids.mapM a.form? = some fs) :
    (a.pushOver ids kind ty).2.form? (a.pushOver ids kind ty).1 = some (g fs) := by
  refine form?_push ?_
  have hread := mapM_mono (a.within_pushList ids).form? hids
  simp only [hkind, list?_pushList, Option.bind_eq_bind, Option.bind_some, hread]
  rfl

end Arena

namespace Form

mutual

/-- Writing keeps what is in the arena, and what was written can be read. -/
theorem write_spec : (f : Form Value) → (a : Arena) →
    a.Within (f.write a).2 ∧ (f.write a).2.form? (f.write a).1 = some f
  | const t v, a => ⟨a.within_push _ _, Arena.form?_push rfl⟩
  | param t i, a => ⟨a.within_push _ _, Arena.form?_push rfl⟩
  | localVar t slot, a => ⟨a.within_push _ _, Arena.form?_push rfl⟩
  | unary t op x, a => by
    obtain ⟨hx, hfx⟩ := write_spec x a
    refine ⟨hx.trans (Arena.within_push _ _ _), Arena.form?_push ?_⟩
    simp only [Arena.compose, hfx]
    rfl
  | binary t op l r, a => by
    obtain ⟨hl, hfl⟩ := write_spec l a
    obtain ⟨hr, hfr⟩ := write_spec r (l.write a).2
    -- writing the right operand keeps the left one
    refine ⟨(hl.trans hr).trans (Arena.within_push _ _ _), Arena.form?_push ?_⟩
    simp only [Arena.compose, hr.form? _ _ hfl, hfr]
    rfl
  | ite t c x y, a => by
    obtain ⟨hc, hfc⟩ := write_spec c a
    obtain ⟨hx, hfx⟩ := write_spec x (c.write a).2
    obtain ⟨hy, hfy⟩ := write_spec y (x.write (c.write a).2).2
    refine ⟨((hc.trans hx).trans hy).trans (Arena.within_push _ _ _), Arena.form?_push ?_⟩
    simp only [Arena.compose, (hx.trans hy).form? _ _ hfc, hy.form? _ _ hfx, hfy]
    rfl
  | letIn t slot i b, a => by
    obtain ⟨hi, hfi⟩ := write_spec i a
    obtain ⟨hb, hfb⟩ := write_spec b (i.write a).2
    refine ⟨(hi.trans hb).trans (Arena.within_push _ _ _), Arena.form?_push ?_⟩
    simp only [Arena.compose, hb.form? _ _ hfi, hfb]
    rfl
  | list t xs, a => by
    obtain ⟨hxs, hfxs⟩ := writeAll_spec xs a
    exact ⟨hxs.trans (Arena.within_pushOver _ _ _ _),
      Arena.form?_pushOver (fun _ _ _ => rfl) hfxs⟩
  | index t r i, a => by
    obtain ⟨hr, hfr⟩ := write_spec r a
    obtain ⟨hi, hfi⟩ := write_spec i (r.write a).2
    refine ⟨(hr.trans hi).trans (Arena.within_push _ _ _), Arena.form?_push ?_⟩
    simp only [Arena.compose, hi.form? _ _ hfr, hfi]
    rfl
  | call t f xs, a => by
    obtain ⟨hxs, hfxs⟩ := writeAll_spec xs a
    exact ⟨hxs.trans (Arena.within_pushOver _ _ _ _),
      Arena.form?_pushOver (fun _ _ _ => rfl) hfxs⟩

theorem writeAll_spec : (fs : List (Form Value)) → (a : Arena) →
    a.Within (writeAll fs a).2 ∧ (writeAll fs a).1.mapM (writeAll fs a).2.form? = some fs
  | [], a => ⟨.refl a, rfl⟩
  | x :: xs, a => by
    obtain ⟨hx, hfx⟩ := write_spec x a
    obtain ⟨hxs, hfxs⟩ := writeAll_spec xs (x.write a).2
    refine ⟨hx.trans hxs, ?_⟩
    show List.mapM (writeAll xs (x.write a).2).2.form?
      ((x.write a).1 :: (writeAll xs (x.write a).2).1) = some (x :: xs)
    rw [List.mapM_cons, hxs.form? _ _ hfx, hfxs]
    rfl

end

/-! ### Holes are numbered by position -/

variable {κ μ : Type}

mutual

/-- The shape keeps the number of constants. -/
theorem length_consts_shape : (f : Form κ) → f.shape.consts.length = f.consts.length
  | const _ _ | param _ _ | localVar _ _ => rfl
  | unary _ _ x => length_consts_shape x
  | binary _ _ l r | letIn _ _ l r | index _ l r => by
    simp [consts, length_consts_shape l, length_consts_shape r]
  | ite _ c x y => by
    simp [consts, length_consts_shape c, length_consts_shape x, length_consts_shape y]
  | list _ xs | call _ _ xs => length_constsAll_shapes xs

theorem length_constsAll_shapes : (fs : List (Form κ)) →
    (constsAll (shapes fs)).length = (constsAll fs).length
  | [] => rfl
  | x :: xs => by simp [constsAll, length_consts_shape x, length_constsAll_shapes xs]

end

mutual

/-- The holes of a form depend on its shape only. -/
theorem hole_shape : (f : Form κ) → (next : Nat) → (f.shape.hole next : Form μ) = f.hole next
  | const _ _, _ | param _ _, _ | localVar _ _, _ => rfl
  | unary _ _ x, _ => by simp [hole, hole_shape x]
  | binary _ _ l r, _ | letIn _ _ l r, _ | index _ l r, _ => by
    simp [hole, hole_shape l, hole_shape r, length_consts_shape l]
  | ite _ c x y, _ => by
    simp [hole, hole_shape c, hole_shape x, hole_shape y, length_consts_shape c,
      length_consts_shape x]
  | list _ xs, _ | call _ _ xs, _ => by simp [hole, holeAll_shapes xs]

theorem holeAll_shapes : (fs : List (Form κ)) → (next : Nat) →
    (holeAll next (shapes fs) : List (Form μ)) = holeAll next fs
  | [], _ => rfl
  | x :: xs, _ => by simp [holeAll, hole_shape x, holeAll_shapes xs, length_consts_shape x]

end

mutual

/-- Nothing is left of the constants. -/
theorem consts_hole : (f : Form κ) → (next : Nat) → (f.hole next : Form μ).consts = []
  | const _ _, _ | param _ _, _ | localVar _ _, _ => rfl
  | unary _ _ x, next => consts_hole x next
  | binary _ _ l r, _ | letIn _ _ l r, _ | index _ l r, _ => by
    simp [hole, consts, consts_hole l, consts_hole r]
  | ite _ c x y, _ => by simp [hole, consts, consts_hole c, consts_hole x, consts_hole y]
  | list _ xs, next | call _ _ xs, next => constsAll_holeAll xs next

theorem constsAll_holeAll : (fs : List (Form κ)) → (next : Nat) →
    constsAll (holeAll next fs : List (Form μ)) = []
  | [], _ => rfl
  | x :: xs, _ => by simp [holeAll, constsAll, consts_hole x, constsAll_holeAll xs]

end

/-- The shape in which every parameter from `arity` on counts as a constant. -/
def refill (arity : Nat) (f : Form κ) : Form Unit :=
  f.subst (fun t _ => .const t ()) fun t i => if arity ≤ i then .const t () else .param t i

def refillAll (arity : Nat) (fs : List (Form κ)) : List (Form Unit) :=
  substAll (fun t _ => .const t ()) (fun t i => if arity ≤ i then .const t () else .param t i) fs

mutual

/-- The shape of a form can be told from its holes, if these are numbered after
all declared parameters. -/
theorem refill_hole {arity : Nat} : (f : Form Value) → {scope : List Nat} → {next : Nat} →
    f.Proper arity scope → arity ≤ next → (f.hole next : Form μ).refill arity = f.shape
  -- holes are told from parameters by their numbers alone
  | const _ _, _, _, _, hn => if_pos hn
  | param _ _, _, _, hf, _ => if_neg (Nat.not_le.mpr hf)
  | localVar _ _, _, _, _, _ => rfl
  | unary t op x, _, _, hf, hn => congrArg (unary t op) (refill_hole x hf hn)
  | binary t op l r, _, next, hf, hn => by
    show binary t op ((l.hole next).refill arity) ((r.hole _).refill arity) = _
    rw [refill_hole l hf.1 hn, refill_hole r hf.2 (Nat.le_add_right_of_le hn), shape_binary]
  | ite t c x y, _, next, hf, hn => by
    show ite t ((c.hole next).refill arity) ((x.hole _).refill arity) ((y.hole _).refill arity) = _
    rw [refill_hole c hf.1 hn, refill_hole x hf.2.1 (Nat.le_add_right_of_le hn),
      refill_hole y hf.2.2 (Nat.le_add_right_of_le (Nat.le_add_right_of_le hn)), shape_ite]
  | letIn t slot i b, _, next, hf, hn => by
    show letIn t slot ((i.hole next).refill arity) ((b.hole _).refill arity) = _
    rw [refill_hole i hf.1 hn, refill_hole b hf.2 (Nat.le_add_right_of_le hn), shape_letIn]
  | index t r i, _, next, hf, hn => by
    show index t ((r.hole next).refill arity) ((i.hole _).refill arity) = _
    rw [refill_hole r hf.1 hn, refill_hole i hf.2 (Nat.le_add_right_of_le hn), shape_index]
  | list t xs, _, _, hf, hn => congrArg (list t) (refillAll_holeAll xs hf hn)
  | call t b xs, _, _, hf, hn => congrArg (call t b) (refillAll_holeAll xs hf hn)

theorem refillAll_holeAll {arity : Nat} : (fs : List (Form Value)) → {scope : List Nat} →
    {next : Nat} → AllProper arity scope fs → arity ≤ next →
    refillAll arity (holeAll next fs : List (Form μ)) = shapes fs
  | [], _, _, _, _ => rfl
  | x :: xs, _, next, hf, hn => by
    show (x.hole next).refill arity :: refillAll arity (holeAll _ xs) = _
    rw [refill_hole x hf.1 hn, refillAll_holeAll xs hf.2 (Nat.le_add_right_of_le hn), shapes_cons]

end

/-- The types that the nodes of the constants record, from left to right. -/
def constTypes (f : Form κ) : List Ty := (f.map fun t _ => t).consts

/-- The shape keeps the types of the constants. -/
theorem constTypes_shape (f : Form κ) : f.shape.constTypes = f.constTypes :=
  congrArg consts (subst_subst _ _ _ _ f)

mutual

/-- In a proper form, the constants carry the types that their nodes record. -/
theorem map_ty_consts {arity : Nat} : (f : Form Value) → {scope : List Nat} →
    f.Proper arity scope → f.consts.map Value.ty = f.constTypes
  | const t v, _, hf => congrArg (fun u => [u]) hf
  | param _ _, _, _ | localVar _ _, _, _ => rfl
  | unary _ _ x, _, hf => map_ty_consts x hf
  | binary _ _ l r, _, hf | index _ l r, _, hf | letIn _ _ l r, _, hf => by
    rw [consts, List.map_append, map_ty_consts l hf.1, map_ty_consts r hf.2]
    rfl
  | ite _ c x y, _, hf => by
    rw [consts, List.map_append, List.map_append, map_ty_consts c hf.1, map_ty_consts x hf.2.1,
      map_ty_consts y hf.2.2]
    rfl
  | list _ xs, _, hf | call _ _ xs, _, hf => map_ty_constsAll xs hf

theorem map_ty_constsAll {arity : Nat} : (fs : List (Form Value)) → {scope : List Nat} →
    AllProper arity scope fs →
    (constsAll fs).map Value.ty = constsAll (substAll (fun t _ => .const t t) .param fs)
  | [], _, _ => rfl
  | x :: xs, _, hf => by
    rw [constsAll, List.map_append, map_ty_consts x hf.1, map_ty_constsAll xs hf.2]
    rfl

end

end Form

end Stencil
