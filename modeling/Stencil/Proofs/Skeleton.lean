import Stencil.Proofs.Layout

/-!
# What extraction builds

Extraction takes the constants out of an expression and lays the rest out afresh
at once. On an expression of form `f` that is well formed (`Form.Proper`), and on
no other, it returns `f.skeleton` and `f.consts` (`Lambda.extract_eq`,
`Lambda.extract_ok`), and the values that the short walk collects are the same ones
(`Lambda.extractValues_eq`).

The skeleton of `f` has the form `f.hole`, which is a function of the shape of `f`
and determines it. This is why two expressions have the same shape exactly if
their skeletons are laid out alike (`Lambda.sameShape_iff_same_skeleton`), and why
the key that is made from a skeleton has the shape of the expression
(`Key.sameShape_canonical`).
-/

namespace Stencil

theorem bind_eq_ok {ε α β : Type} {x : Except ε α} {k : α → Except ε β} {b : β}
    (h : x >>= k = .ok b) : ∃ a, x = .ok a ∧ k a = .ok b := by
  cases x with
  | error err => cases h
  | ok a => exact ⟨a, rfl, h⟩

theorem ok_bind {ε α β : Type} {x : Except ε α} {k : α → Except ε β} (hx : ∃ a, x = .ok a)
    (hk : ∀ a, ∃ b, k a = .ok b) : ∃ b, x >>= k = .ok b := by
  obtain ⟨a, rfl⟩ := hx
  exact hk a

/-- Writes the form behind the draft, with placeholders for its constants, and
takes these out. -/
def Draft.place (d : Draft) (arity : Nat) (f : Form Value) : NodeId × Draft :=
  let (id, arena) := (f.hole (arity + d.values.size)).write d.arena
  (id, ⟨arena, d.values ++ f.consts.toArray⟩)

/-- The same for several forms. -/
def Draft.placeAll (d : Draft) (arity : Nat) (fs : List (Form Value)) : List NodeId × Draft :=
  let (ids, arena) := Form.writeAll (Form.holeAll (arity + d.values.size) fs) d.arena
  (ids, ⟨arena, d.values ++ (Form.constsAll fs).toArray⟩)

namespace Tree

variable {arity : Nat}

mutual

/-- Laying a tree out succeeds on proper forms only, and places the form. -/
theorem layOut_ok : (t : Tree) → {owner : NodeId} → {scope : List Nat} → {d : Draft} →
    {p : NodeId × Draft} → t.layOut arity owner scope d = .ok p →
    ∃ f, t.form? = some f ∧ f.Proper arity scope ∧ p = d.place arity f
  | dangling _, _, _, _, _, h | raggedList _, _, _, _, _, h | raggedCall _ _, _, _, _, _, h => by
    cases h
  | const site v, _, _, d, p, h => by
    obtain ⟨_, hc, h⟩ := bind_eq_ok h
    rw [Site.checkConst] at hc
    by_cases hv : v.ty = site.ty
    · cases h
      exact ⟨.const site.ty v, rfl, hv, rfl⟩
    · rw [if_neg hv] at hc
      cases hc
  | param site i, _, _, d, p, h => by
    obtain ⟨_, hc, h⟩ := bind_eq_ok h
    rw [Site.checkParam] at hc
    by_cases hi : i < arity
    · cases h
      refine ⟨.param site.ty i, rfl, hi, ?_⟩
      simp [Draft.place, Form.hole, Form.write, Form.consts, Draft.push]
    · rw [if_neg hi] at hc
      cases hc
  | localVar site slot, _, scope, d, p, h => by
    obtain ⟨_, hc, h⟩ := bind_eq_ok h
    rw [Site.checkLocal] at hc
    by_cases hs : slot ∈ scope
    · cases h
      refine ⟨.localVar site.ty slot, rfl, hs, ?_⟩
      simp [Draft.place, Form.hole, Form.write, Form.consts, Draft.push]
    · rw [if_neg hs] at hc
      cases hc
  | unary site op x, _, _, d, p, h => by
    obtain ⟨⟨id, d₁⟩, hx, h⟩ := bind_eq_ok h
    obtain ⟨f, hf, hp, hd⟩ := layOut_ok x hx
    cases h
    cases hd
    exact ⟨.unary site.ty op f, by rw [form?, hf]; rfl, hp, rfl⟩
  | binary site op l r, _, _, d, p, h => by
    obtain ⟨⟨id₁, d₁⟩, hl, h⟩ := bind_eq_ok h
    obtain ⟨⟨id₂, d₂⟩, hr, h⟩ := bind_eq_ok h
    obtain ⟨f, hf, hp, hd₁⟩ := layOut_ok l hl
    obtain ⟨g, hg, hq, hd₂⟩ := layOut_ok r hr
    cases h
    cases hd₁
    cases hd₂
    refine ⟨.binary site.ty op f g, by rw [form?, hf, hg]; rfl, ⟨hp, hq⟩, ?_⟩
    -- the holes of the right operand go on where those of the left one end
    simp [Draft.place, Form.hole, Form.write, Form.consts, Draft.push, Nat.add_assoc]
  | ite site c x y, _, _, d, p, h => by
    obtain ⟨⟨id₁, d₁⟩, hc, h⟩ := bind_eq_ok h
    obtain ⟨⟨id₂, d₂⟩, hx, h⟩ := bind_eq_ok h
    obtain ⟨⟨id₃, d₃⟩, hy, h⟩ := bind_eq_ok h
    obtain ⟨f, hf, hp, hd₁⟩ := layOut_ok c hc
    obtain ⟨g, hg, hq, hd₂⟩ := layOut_ok x hx
    obtain ⟨k, hk, hr, hd₃⟩ := layOut_ok y hy
    cases h
    cases hd₁
    cases hd₂
    cases hd₃
    refine ⟨.ite site.ty f g k, by rw [form?, hf, hg, hk]; rfl, ⟨hp, hq, hr⟩, ?_⟩
    simp [Draft.place, Form.hole, Form.write, Form.consts, Draft.push, Nat.add_assoc]
  | letIn site slot i b, _, _, d, p, h => by
    obtain ⟨⟨id₁, d₁⟩, hi, h⟩ := bind_eq_ok h
    obtain ⟨⟨id₂, d₂⟩, hb, h⟩ := bind_eq_ok h
    obtain ⟨f, hf, hp, hd₁⟩ := layOut_ok i hi
    obtain ⟨g, hg, hq, hd₂⟩ := layOut_ok b hb
    cases h
    cases hd₁
    cases hd₂
    refine ⟨.letIn site.ty slot f g, by rw [form?, hf, hg]; rfl, ⟨hp, hq⟩, ?_⟩
    simp [Draft.place, Form.hole, Form.write, Form.consts, Draft.push, Nat.add_assoc]
  | list site xs, _, _, d, p, h => by
    obtain ⟨⟨ids, d₁⟩, hxs, h⟩ := bind_eq_ok h
    obtain ⟨fs, hfs, hp, hd⟩ := layOutAll_ok xs hxs
    cases h
    cases hd
    exact ⟨.list site.ty fs, by rw [form?, hfs]; rfl, hp, rfl⟩
  | index site r i, _, _, d, p, h => by
    obtain ⟨⟨id₁, d₁⟩, hr, h⟩ := bind_eq_ok h
    obtain ⟨⟨id₂, d₂⟩, hi, h⟩ := bind_eq_ok h
    obtain ⟨f, hf, hp, hd₁⟩ := layOut_ok r hr
    obtain ⟨g, hg, hq, hd₂⟩ := layOut_ok i hi
    cases h
    cases hd₁
    cases hd₂
    refine ⟨.index site.ty f g, by rw [form?, hf, hg]; rfl, ⟨hp, hq⟩, ?_⟩
    simp [Draft.place, Form.hole, Form.write, Form.consts, Draft.push, Nat.add_assoc]
  | call site b xs, _, _, d, p, h => by
    obtain ⟨⟨ids, d₁⟩, hxs, h⟩ := bind_eq_ok h
    obtain ⟨fs, hfs, hp, hd⟩ := layOutAll_ok xs hxs
    cases h
    cases hd
    exact ⟨.call site.ty b fs, by rw [form?, hfs]; rfl, hp, rfl⟩

theorem layOutAll_ok : (ts : List Tree) → {owner : NodeId} → {scope : List Nat} → {d : Draft} →
    {p : List NodeId × Draft} → layOutAll arity owner scope ts d = .ok p →
    ∃ fs, formAll? ts = some fs ∧ Form.AllProper arity scope fs ∧ p = d.placeAll arity fs
  | [], _, _, d, p, h => by
    cases h
    exact ⟨[], rfl, trivial, by simp [Draft.placeAll, Form.holeAll, Form.writeAll, Form.constsAll]⟩
  | x :: xs, _, _, d, p, h => by
    obtain ⟨⟨id, d₁⟩, hx, h⟩ := bind_eq_ok h
    obtain ⟨⟨ids, d₂⟩, hxs, h⟩ := bind_eq_ok h
    obtain ⟨f, hf, hp, hd₁⟩ := layOut_ok x hx
    obtain ⟨fs, hfs, hps, hd₂⟩ := layOutAll_ok xs hxs
    cases h
    cases hd₁
    cases hd₂
    refine ⟨f :: fs, by rw [formAll?, hf, hfs]; rfl, ⟨hp, hps⟩, ?_⟩
    simp [Draft.placeAll, Form.holeAll, Form.writeAll, Form.constsAll, Nat.add_assoc]

end

mutual

/-- A tree with a proper form can be laid out. -/
theorem exists_layOut : (t : Tree) → (owner : NodeId) → (scope : List Nat) → (d : Draft) →
    {f : Form Value} → t.form? = some f → f.Proper arity scope →
    ∃ p, t.layOut arity owner scope d = .ok p
  | dangling _, _, _, _, _, h, _ | raggedList _, _, _, _, _, h, _
  | raggedCall _ _, _, _, _, _, h, _ => by cases h
  | const site v, _, _, d, _, h, hf => by
    cases h
    exact ok_bind ⟨(), if_pos hf⟩ fun _ => ⟨_, rfl⟩
  | param site i, _, _, d, _, h, hf => by
    cases h
    exact ok_bind ⟨(), if_pos hf⟩ fun _ => ⟨_, rfl⟩
  | localVar site slot, _, scope, d, _, h, hf => by
    cases h
    exact ok_bind ⟨(), if_pos hf⟩ fun _ => ⟨_, rfl⟩
  | unary site op x, _, scope, d, _, h, hf => by
    simp only [form?, Option.bind_eq_bind, Option.bind_eq_some_iff] at h
    obtain ⟨f, hx, h⟩ := h
    cases h
    exact ok_bind (exists_layOut x site.id scope d hx hf) fun ⟨_, _⟩ => ⟨_, rfl⟩
  | binary site op l r, _, scope, d, _, h, hf => by
    simp only [form?, Option.bind_eq_bind, Option.bind_eq_some_iff] at h
    obtain ⟨f, hl, g, hr, h⟩ := h
    cases h
    exact ok_bind (exists_layOut l site.id scope d hl hf.1) fun ⟨_, d₁⟩ =>
      ok_bind (exists_layOut r site.id scope d₁ hr hf.2) fun ⟨_, _⟩ => ⟨_, rfl⟩
  | ite site c x y, _, scope, d, _, h, hf => by
    simp only [form?, Option.bind_eq_bind, Option.bind_eq_some_iff] at h
    obtain ⟨f, hc, g, hx, k, hy, h⟩ := h
    cases h
    exact ok_bind (exists_layOut c site.id scope d hc hf.1) fun ⟨_, d₁⟩ =>
      ok_bind (exists_layOut x site.id scope d₁ hx hf.2.1) fun ⟨_, d₂⟩ =>
        ok_bind (exists_layOut y site.id scope d₂ hy hf.2.2) fun ⟨_, _⟩ => ⟨_, rfl⟩
  | letIn site slot i b, _, scope, d, _, h, hf => by
    simp only [form?, Option.bind_eq_bind, Option.bind_eq_some_iff] at h
    obtain ⟨f, hi, g, hb, h⟩ := h
    cases h
    exact ok_bind (exists_layOut i site.id scope d hi hf.1) fun ⟨_, d₁⟩ =>
      ok_bind (exists_layOut b site.id (slot :: scope) d₁ hb hf.2) fun ⟨_, _⟩ => ⟨_, rfl⟩
  | index site r i, _, scope, d, _, h, hf => by
    simp only [form?, Option.bind_eq_bind, Option.bind_eq_some_iff] at h
    obtain ⟨f, hr, g, hi, h⟩ := h
    cases h
    exact ok_bind (exists_layOut r site.id scope d hr hf.1) fun ⟨_, d₁⟩ =>
      ok_bind (exists_layOut i site.id scope d₁ hi hf.2) fun ⟨_, _⟩ => ⟨_, rfl⟩
  | list site xs, _, scope, d, _, h, hf | call site b xs, _, scope, d, _, h, hf => by
    simp only [form?, Option.bind_eq_bind, Option.bind_eq_some_iff] at h
    obtain ⟨fs, hxs, h⟩ := h
    cases h
    exact ok_bind (exists_layOutAll xs site.id scope d hxs hf) fun ⟨_, _⟩ => ⟨_, rfl⟩

theorem exists_layOutAll : (ts : List Tree) → (owner : NodeId) → (scope : List Nat) →
    (d : Draft) → {fs : List (Form Value)} → formAll? ts = some fs →
    Form.AllProper arity scope fs → ∃ p, layOutAll arity owner scope ts d = .ok p
  | [], _, _, _, _, _, _ => ⟨_, rfl⟩
  | x :: xs, owner, scope, d, _, h, hf => by
    simp only [formAll?, Option.bind_eq_bind, Option.bind_eq_some_iff] at h
    obtain ⟨f, hx, fs, hxs, h⟩ := h
    cases h
    exact ok_bind (exists_layOut x owner scope d hx hf.1) fun ⟨_, d₁⟩ =>
      ok_bind (exists_layOutAll xs owner scope d₁ hxs hf.2) fun ⟨_, _⟩ => ⟨_, rfl⟩

end

mutual

/-- The short walk meets the same faults and collects the same constants. -/
theorem collect_eq : (t : Tree) → (owner : NodeId) → (scope : List Nat) → (d : Draft) →
    t.collect arity owner scope d.values
      = (t.layOut arity owner scope d).map fun p => p.2.values
  | dangling _, _, _, _ | raggedList _, _, _, _ | raggedCall _ _, _, _, _ => rfl
  | const site v, _, _, d => by
    rw [collect, layOut]
    cases site.checkConst v <;> rfl
  | param site i, _, _, d => by
    rw [collect, layOut]
    cases site.checkParam arity i <;> rfl
  | localVar site slot, _, scope, d => by
    rw [collect, layOut]
    cases site.checkLocal scope slot <;> rfl
  | unary site _ x, _, scope, d => by
    rw [collect, layOut, collect_eq x site.id scope d]
    cases x.layOut arity site.id scope d <;> rfl
  | binary site _ l r, _, scope, d | index site l r, _, scope, d => by
    rw [collect, layOut, collect_eq l site.id scope d]
    cases l.layOut arity site.id scope d with
    | error err => rfl
    | ok p =>
      simp only [Except.map, bind, Except.bind, collect_eq r site.id scope p.2]
      cases r.layOut arity site.id scope p.2 <;> rfl
  | ite site c x y, _, scope, d => by
    rw [collect, layOut, collect_eq c site.id scope d]
    cases c.layOut arity site.id scope d with
    | error err => rfl
    | ok p =>
      simp only [Except.map, bind, Except.bind, collect_eq x site.id scope p.2]
      cases x.layOut arity site.id scope p.2 with
      | error err => rfl
      | ok q =>
        simp only [collect_eq y site.id scope q.2]
        cases y.layOut arity site.id scope q.2 <;> rfl
  | letIn site slot i b, _, scope, d => by
    rw [collect, layOut, collect_eq i site.id scope d]
    cases i.layOut arity site.id scope d with
    | error err => rfl
    | ok p =>
      simp only [Except.map, bind, Except.bind, collect_eq b site.id (slot :: scope) p.2]
      cases b.layOut arity site.id (slot :: scope) p.2 <;> rfl
  | list site xs, _, scope, d | call site _ xs, _, scope, d => by
    rw [collect, layOut, collectAll_eq xs site.id scope d]
    cases layOutAll arity site.id scope xs d <;> rfl

theorem collectAll_eq : (ts : List Tree) → (owner : NodeId) → (scope : List Nat) → (d : Draft) →
    collectAll arity owner scope ts d.values
      = (layOutAll arity owner scope ts d).map fun p => p.2.values
  | [], _, _, _ => rfl
  | x :: xs, owner, scope, d => by
    rw [collectAll, layOutAll, collect_eq x owner scope d]
    cases x.layOut arity owner scope d with
    | error err => rfl
    | ok p =>
      simp only [Except.map, bind, Except.bind, collectAll_eq xs owner scope p.2]
      cases layOutAll arity owner scope xs p.2 <;> rfl

end

end Tree

/-- The skeleton of an expression of the given form and parameters. -/
def Form.skeleton (f : Form Value) (params : List Param) : Lambda :=
  let (root, arena) := (f.hole params.length).write .empty
  ⟨params ++ placeholders 0 f.consts, arena, root⟩

theorem Form.form?_skeleton (f : Form Value) (params : List Param) :
    (f.skeleton params).tree.form? = some (f.hole params.length) :=
  (Form.write_spec (f.hole params.length) .empty).2

theorem map_ty_placeholders (first : Nat) (vs : List Value) :
    (placeholders first vs).map Param.ty = vs.map Value.ty := by
  induction vs generalizing first with
  | nil => rfl
  | cons v vs ih => rw [placeholders, List.map_cons, List.map_cons, ih]

namespace Lambda

theorem paramTypes_skeleton (e : Lambda) (f : Form Value) :
    (f.skeleton e.params).paramTypes = e.paramTypes ++ f.consts.map Value.ty := by
  rw [← map_ty_placeholders 0]
  exact List.map_append

theorem arity_skeleton (e : Lambda) (f : Form Value) :
    (f.skeleton e.params).arity = e.arity + f.consts.length := by
  rw [← length_paramTypes, paramTypes_skeleton, List.length_append, List.length_map,
    length_paramTypes]

/-- The expression is well formed and `f` is its form. -/
structure HasForm (e : Lambda) (f : Form Value) : Prop where
  form : e.tree.form? = some f
  proper : f.Proper e.arity []

/-- Extraction succeeds on well-formed expressions only, and returns the
skeleton and the constants of their form. -/
theorem extract_ok {e : Lambda} {x : Extracted} (h : e.extract = .ok x) :
    ∃ f, e.HasForm f ∧ x = ⟨f.skeleton e.params, f.consts⟩ := by
  obtain ⟨_, -, h⟩ := bind_eq_ok h
  obtain ⟨⟨root, d⟩, hlay, h⟩ := bind_eq_ok h
  obtain ⟨f, hf, hp, hd⟩ := Tree.layOut_ok e.tree hlay
  cases h
  cases hd
  refine ⟨f, ⟨hf, hp⟩, ?_⟩
  simp [Form.skeleton, Draft.empty, arity]

/-- Extraction accepts every well-formed expression. -/
theorem extract_eq {e : Lambda} {f : Form Value} (h : e.HasForm f) :
    e.extract = .ok ⟨f.skeleton e.params, f.consts⟩ := by
  have hroot : e.root < e.arena.size := Arena.form?_lt h.form
  obtain ⟨x, hx⟩ : ∃ x, e.extract = .ok x :=
    ok_bind ⟨(), if_pos hroot⟩ fun _ =>
      ok_bind (Tree.exists_layOut e.tree e.root [] .empty h.form h.proper) fun ⟨_, _⟩ => ⟨_, rfl⟩
  obtain ⟨g, hg, rfl⟩ := extract_ok hx
  cases h.form.symm.trans hg.form
  exact hx

theorem extractValues_eq (e : Lambda) : e.extractValues = e.extract.map Extracted.values := by
  have h : e.tree.collect e.arity e.root [] Draft.empty.values = _ :=
    Tree.collect_eq e.tree e.root [] .empty
  rw [extractValues, extract]
  cases e.checkRoot with
  | error err => rfl
  | ok _ =>
    show (e.tree.collect e.arity e.root [] Draft.empty.values >>= _) = _
    rw [h]
    cases e.tree.layOut e.arity e.root [] .empty <;> rfl

theorem HasForm.sameShape_iff {a b : Lambda} {f g : Form Value} (ha : a.HasForm f)
    (hb : b.HasForm g) :
    a.sameShape b = true ↔ a.paramTypes = b.paramTypes ∧ f.shape = g.shape := by
  rw [Lambda.sameShape_iff]
  constructor
  · rintro ⟨hp, f', g', hf, hg, hfg⟩
    rw [ha.form] at hf
    rw [hb.form] at hg
    cases hf
    cases hg
    exact ⟨hp, hfg⟩
  · rintro ⟨hp, hfg⟩
    exact ⟨hp, f, g, ha.form, hb.form, hfg⟩

/-- Expressions of one shape have skeletons that are laid out alike. -/
theorem sameShape_iff_hole {a b : Lambda} {f g : Form Value} (ha : a.HasForm f)
    (hb : b.HasForm g) : a.sameShape b = true ↔
      a.paramTypes = b.paramTypes ∧ (f.hole a.arity : Form Value) = g.hole b.arity := by
  rw [ha.sameShape_iff hb]
  refine and_congr_right fun hp => ⟨fun hfg => ?_, fun hfg => ?_⟩
  · rw [← f.hole_shape, hfg, g.hole_shape, arity_congr hp]
  · rw [← Form.refill_hole f ha.proper (Nat.le_refl _), hfg, arity_congr hp,
      Form.refill_hole g hb.proper (Nat.le_refl _)]

/-- Expressions of one shape have constants of the same types. -/
theorem map_ty_consts_congr {a b : Lambda} {f g : Form Value} (ha : a.HasForm f)
    (hb : b.HasForm g) (h : a.sameShape b = true) :
    f.consts.map Value.ty = g.consts.map Value.ty := by
  rw [Form.map_ty_consts f ha.proper, Form.map_ty_consts g hb.proper, ← f.constTypes_shape,
    ((ha.sameShape_iff hb).mp h).2, g.constTypes_shape]

/-- Two well-formed expressions have the same shape exactly if they have the
same parameter types and their skeletons are the same arena with the same root;
their constants then have the same types, place by place. -/
theorem sameShape_iff_same_skeleton {a b : Lambda} {x y : Extracted} (ha : a.extract = .ok x)
    (hb : b.extract = .ok y) :
    (a.sameShape b = true ↔ a.paramTypes = b.paramTypes ∧
      x.skeleton.arena = y.skeleton.arena ∧ x.skeleton.root = y.skeleton.root) ∧
    (a.sameShape b = true → x.values.length = y.values.length ∧
      x.values.map Value.ty = y.values.map Value.ty) := by
  obtain ⟨f, hf, rfl⟩ := extract_ok ha
  obtain ⟨g, hg, rfl⟩ := extract_ok hb
  refine ⟨?_, ?_⟩
  · rw [sameShape_iff_hole hf hg]
    constructor
    · rintro ⟨hp, h⟩
      simp only [arity] at h
      exact ⟨hp, by simp only [Form.skeleton, h], by simp only [Form.skeleton, h]⟩
    · rintro ⟨hp, harena, hroot⟩
      refine ⟨hp, ?_⟩
      -- the skeletons unfold to one tree, and the form of that tree has the holes
      have htree : (f.skeleton a.params).tree = (g.skeleton b.params).tree := by
        rw [tree, tree, harena, hroot]
      have h := f.form?_skeleton a.params
      rw [htree, g.form?_skeleton] at h
      exact (Option.some.inj h).symm
  · intro h
    have htypes := map_ty_consts_congr hf hg h
    exact ⟨by simpa using congrArg List.length htypes, htypes⟩

/-- `let l0 = a + 1 in (xs ++ [1, 2])[let l0 = l0 * l0 in l0]`, with one node for
all readings of the slot, be it of the outer binding or of the inner one. -/
def rebinding : Lambda where
  params := [⟨"a", .int⟩, ⟨"xs", .list .int⟩]
  arena :=
    { nodes := #[⟨.param 0, .int⟩, ⟨.const (.int 1), .int⟩, ⟨.binary .add 0 1, .int⟩,
        ⟨.localVar 0, .int⟩, ⟨.binary .mul 3 3, .int⟩, ⟨.letIn 0 4 3, .int⟩,
        ⟨.const (.list .int [.int 1, .int 2]), .list .int⟩, ⟨.param 1, .list .int⟩,
        ⟨.binary .add 7 6, .list .int⟩, ⟨.index 8 5, .int⟩, ⟨.letIn 0 2 9, .int⟩]
      table := #[] }
  root := 10

/-- The shape of `rebinding` with other names and constants, in another order of
nodes, with a node for each reading and one that is not used. -/
def rebindingSpread : Lambda where
  params := [⟨"n", .int⟩, ⟨"items", .list .int⟩]
  arena :=
    { nodes := #[⟨.const (.bool true), .bool⟩, ⟨.param 1, .list .int⟩,
        ⟨.const (.list .int [.int 7]), .list .int⟩, ⟨.binary .add 1 2, .list .int⟩,
        ⟨.localVar 0, .int⟩, ⟨.localVar 0, .int⟩, ⟨.binary .mul 4 5, .int⟩, ⟨.localVar 0, .int⟩,
        ⟨.letIn 0 6 7, .int⟩, ⟨.index 3 8, .int⟩, ⟨.const (.int 5), .int⟩, ⟨.param 0, .int⟩,
        ⟨.binary .add 11 10, .int⟩, ⟨.letIn 0 12 9, .int⟩]
      table := #[] }
  root := 13

theorem same_skeleton_rebinding : ∃ x y, rebinding.extract = .ok x ∧
    rebindingSpread.extract = .ok y ∧ x.values ≠ y.values ∧
    x.skeleton.arena = y.skeleton.arena ∧ x.skeleton.root = y.skeleton.root ∧
    x.values.map Value.ty = y.values.map Value.ty := by
  obtain ⟨hiff, htypes⟩ :=
    sameShape_iff_same_skeleton (a := rebinding) (b := rebindingSpread) rfl rfl
  have hsame : rebinding.sameShape rebindingSpread = true := by decide
  obtain ⟨-, harena, hroot⟩ := hiff.mp hsame
  exact ⟨_, _, rfl, rfl, by decide, harena, hroot, (htypes hsame).2⟩

end Lambda

namespace Key

theorem substitute_rewrites (replace : Nat → Ty → Option Value) :
    Arena.Rewrites (Kind.substitute replace) .const
      (fun t i => ((replace i t).map (.const t)).getD (.param t i)) where
  const _ _ _ _ := rfl
  param a i t child := by
    simp only [Kind.substitute]
    cases replace i t <;> rfl
  other kind t hc hp := by
    cases kind with
    | param i => exact absurd rfl (hp i)
    | _ => rfl

/-- A well-formed expression has the shape of the key that is made from its
skeleton. -/
theorem sameShape_canonical {e : Lambda} {f : Form Value} (h : e.HasForm f) :
    (canonical (f.skeleton e.params) e.params).lambda.sameShape e = true := by
  let replace : Nat → Ty → Option Value := fun i ty =>
    if e.params.length ≤ i then some ty.default else none
  have hform := (f.skeleton e.params).arena.form?_mapKinds (substitute_rewrites replace)
    (f.skeleton e.params).root
  rw [show (f.skeleton e.params).arena.form? (f.skeleton e.params).root = _ from
    f.form?_skeleton e.params] at hform
  refine Lambda.sameShape_iff.mpr ⟨rfl, _, f, hform, h.form, ?_⟩
  have hparam : (fun t i => (((replace i t).map (.const t)).getD (.param t i) : Form Value).shape)
      = fun t i => if e.arity ≤ i then .const t () else .param t i := by
    funext t i
    by_cases hi : e.params.length ≤ i
    · simp [replace, hi, Lambda.arity]
    · simp [replace, hi, Lambda.arity]
  -- what the key puts for the holes is what `Form.refill` takes them for
  rw [Form.shape_subst, hparam]
  exact Form.refill_hole f h.proper (Nat.le_refl _)

end Key

end Stencil
