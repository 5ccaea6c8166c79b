import Stencil.Proofs.Form
import Stencil.Shape.Key

/-!
# Same shape, equal shapes

`Tree.sameShape` walks two trees at once. It accepts them exactly when both
have a shape and the two shapes are equal (`Tree.sameShape_iff`), which makes it
symmetric and transitive, and reflexive where nothing dangles.

One direction walks down the two trees. The other walks down the common shape:
`Tree.shape?_cases` says what a tree of a given shape looks like, so that both
trees are opened by the same lemma.
-/

namespace Stencil

namespace Form

variable {κ μ ν : Type}

mutual

/-- Two substitutions in a row are one, which puts in what the second makes of the first. -/
theorem subst_subst (c : Ty → κ → Form μ) (p : Ty → Nat → Form μ) (c' : Ty → μ → Form ν)
    (p' : Ty → Nat → Form ν) : (f : Form κ) → (f.subst c p).subst c' p'
      = f.subst (fun t v => (c t v).subst c' p') fun t i => (p t i).subst c' p'
  | const _ _ | param _ _ | localVar _ _ => rfl
  | unary _ _ x => by simp only [subst, subst_subst c p c' p' x]
  | binary _ _ l r => by simp only [subst, subst_subst c p c' p' l, subst_subst c p c' p' r]
  | ite _ b x y => by
    simp only [subst, subst_subst c p c' p' b, subst_subst c p c' p' x, subst_subst c p c' p' y]
  | letIn _ _ i b => by simp only [subst, subst_subst c p c' p' i, subst_subst c p c' p' b]
  | list _ xs => by simp only [subst, substAll_substAll c p c' p' xs]
  | index _ r i => by simp only [subst, subst_subst c p c' p' r, subst_subst c p c' p' i]
  | call _ _ xs => by simp only [subst, substAll_substAll c p c' p' xs]

theorem substAll_substAll (c : Ty → κ → Form μ) (p : Ty → Nat → Form μ) (c' : Ty → μ → Form ν)
    (p' : Ty → Nat → Form ν) : (fs : List (Form κ)) → substAll c' p' (substAll c p fs)
      = substAll (fun t v => (c t v).subst c' p') (fun t i => (p t i).subst c' p') fs
  | [] => rfl
  | x :: xs => by simp only [substAll, subst_subst c p c' p' x, substAll_substAll c p c' p' xs]

end

section

variable (t : Ty) (op : UnaryOp) (oq : BinaryOp) (slot : Nat) (b : Builtin) (x y z : Form κ)
  (xs : List (Form κ))

/-- The shapes of several forms. -/
def shapes : List (Form Unit) := substAll (fun t _ => .const t ()) .param xs

@[simp] theorem shape_const (v : κ) : (const t v).shape = .const t () := rfl
@[simp] theorem shape_param : (param t slot : Form κ).shape = .param t slot := rfl
@[simp] theorem shape_localVar : (localVar t slot : Form κ).shape = .localVar t slot := rfl
@[simp] theorem shape_unary : (unary t op x).shape = .unary t op x.shape := rfl
@[simp] theorem shape_binary : (binary t oq x y).shape = .binary t oq x.shape y.shape := rfl
@[simp] theorem shape_ite : (ite t x y z).shape = .ite t x.shape y.shape z.shape := rfl
@[simp] theorem shape_letIn : (letIn t slot x y).shape = .letIn t slot x.shape y.shape := rfl
@[simp] theorem shape_list : (list t xs).shape = .list t (shapes xs) := rfl
@[simp] theorem shape_index : (index t x y).shape = .index t x.shape y.shape := rfl
@[simp] theorem shape_call : (call t b xs).shape = .call t b (shapes xs) := rfl
@[simp] theorem shapes_nil : shapes ([] : List (Form κ)) = [] := rfl
@[simp] theorem shapes_cons : shapes (x :: xs) = x.shape :: shapes xs := rfl

end

/-- The shape after a substitution comes from the shapes of what was put in. -/
theorem shape_subst (c : Ty → κ → Form μ) (p : Ty → Nat → Form μ) (f : Form κ) :
    (f.subst c p).shape = f.subst (fun t v => (c t v).shape) fun t i => (p t i).shape :=
  subst_subst _ _ _ _ f

/-- The shape forgets what happens to the constants. -/
theorem shape_map (g : Ty → κ → μ) (f : Form κ) : (f.map g).shape = f.shape :=
  shape_subst _ _ f

end Form

namespace Tree

/-- The shape of a tree in which nothing dangles. -/
def shape? (t : Tree) : Option (Form Unit) := t.form?.map Form.shape

/-- The shapes of trees in none of which anything dangles. -/
def shapeAll? (ts : List Tree) : Option (List (Form Unit)) := (formAll? ts).map Form.shapes

/-- What a tree of a given shape looks like. -/
theorem shape?_cases {t : Tree} {s : Form Unit} (h : t.shape? = some s) :
    match s with
    | .const ty _ => ∃ site v, t = const site v ∧ site.ty = ty
    | .param ty i => ∃ site, t = param site i ∧ site.ty = ty
    | .localVar ty i => ∃ site, t = localVar site i ∧ site.ty = ty
    | .unary ty op s => ∃ site x, t = unary site op x ∧ site.ty = ty ∧ x.shape? = some s
    | .binary ty op s₁ s₂ => ∃ site x y, t = binary site op x y ∧ site.ty = ty ∧
        x.shape? = some s₁ ∧ y.shape? = some s₂
    | .ite ty s₁ s₂ s₃ => ∃ site x y z, t = ite site x y z ∧ site.ty = ty ∧
        x.shape? = some s₁ ∧ y.shape? = some s₂ ∧ z.shape? = some s₃
    | .letIn ty i s₁ s₂ => ∃ site x y, t = letIn site i x y ∧ site.ty = ty ∧
        x.shape? = some s₁ ∧ y.shape? = some s₂
    | .list ty ss => ∃ site xs, t = list site xs ∧ site.ty = ty ∧ shapeAll? xs = some ss
    | .index ty s₁ s₂ => ∃ site x y, t = index site x y ∧ site.ty = ty ∧
        x.shape? = some s₁ ∧ y.shape? = some s₂
    | .call ty f ss => ∃ site xs, t = call site f xs ∧ site.ty = ty ∧
        shapeAll? xs = some ss := by
  obtain ⟨f, hf, rfl⟩ := Option.map_eq_some_iff.mp h
  cases t <;> simp only [form?, Option.bind_eq_bind, Option.bind_eq_some_iff] at hf
  case dangling | raggedList | raggedCall => cases hf
  case const =>
    cases hf
    exact ⟨_, _, rfl, rfl⟩
  case param | localVar =>
    cases hf
    exact ⟨_, rfl, rfl⟩
  case unary =>
    obtain ⟨x, hx, hf⟩ := hf
    cases hf
    exact ⟨_, _, rfl, rfl, by rw [shape?, hx]; rfl⟩
  case list | call =>
    obtain ⟨xs, hxs, hf⟩ := hf
    cases hf
    exact ⟨_, _, rfl, rfl, by rw [shapeAll?, hxs]; rfl⟩
  case binary | letIn | index =>
    obtain ⟨x, hx, y, hy, hf⟩ := hf
    cases hf
    exact ⟨_, _, _, rfl, rfl, by rw [shape?, hx]; rfl, by rw [shape?, hy]; rfl⟩
  case ite =>
    obtain ⟨x, hx, y, hy, z, hz, hf⟩ := hf
    cases hf
    exact ⟨_, _, _, _, rfl, rfl, by rw [shape?, hx]; rfl, by rw [shape?, hy]; rfl,
      by rw [shape?, hz]; rfl⟩

/-- What trees of given shapes look like. -/
theorem shapeAll?_cases {ts : List Tree} {ss : List (Form Unit)} (h : shapeAll? ts = some ss) :
    match ss with
    | [] => ts = []
    | s :: ss => ∃ x xs, ts = x :: xs ∧ x.shape? = some s ∧ shapeAll? xs = some ss := by
  obtain ⟨fs, hfs, rfl⟩ := Option.map_eq_some_iff.mp h
  cases ts with
  | nil => cases hfs; exact rfl
  | cons x xs =>
    simp only [formAll?, Option.bind_eq_bind, Option.bind_eq_some_iff] at hfs
    obtain ⟨f, hf, fs, hfs, h⟩ := hfs
    cases h
    exact ⟨_, _, rfl, by rw [shape?, hf]; rfl, by rw [shapeAll?, hfs]; rfl⟩

mutual

/-- Two trees of one shape pass the comparison. -/
theorem sameShape_of_shape? : (s : Form Unit) → (t u : Tree) → t.shape? = some s →
    u.shape? = some s → t.sameShape u = true
  -- opening both trees by the common shape leaves no pair of different kinds
  | .const _ _, t, u, ht, hu => by
    obtain ⟨_, _, rfl, rfl⟩ := shape?_cases ht
    obtain ⟨_, _, rfl, h⟩ := shape?_cases hu
    simp [sameShape, h]
  | .param _ _, t, u, ht, hu => by
    obtain ⟨_, rfl, rfl⟩ := shape?_cases ht
    obtain ⟨_, rfl, h⟩ := shape?_cases hu
    simp [sameShape, h]
  | .localVar _ _, t, u, ht, hu => by
    obtain ⟨_, rfl, rfl⟩ := shape?_cases ht
    obtain ⟨_, rfl, h⟩ := shape?_cases hu
    simp [sameShape, h]
  | .unary _ _ s, t, u, ht, hu => by
    obtain ⟨_, x, rfl, rfl, hx⟩ := shape?_cases ht
    obtain ⟨_, x', rfl, h, hx'⟩ := shape?_cases hu
    simp [sameShape, h, sameShape_of_shape? s x x' hx hx']
  | .binary _ _ s₁ s₂, t, u, ht, hu => by
    obtain ⟨_, x, y, rfl, rfl, hx, hy⟩ := shape?_cases ht
    obtain ⟨_, x', y', rfl, h, hx', hy'⟩ := shape?_cases hu
    simp [sameShape, h, sameShape_of_shape? s₁ x x' hx hx', sameShape_of_shape? s₂ y y' hy hy']
  | .ite _ s₁ s₂ s₃, t, u, ht, hu => by
    obtain ⟨_, x, y, z, rfl, rfl, hx, hy, hz⟩ := shape?_cases ht
    obtain ⟨_, x', y', z', rfl, h, hx', hy', hz'⟩ := shape?_cases hu
    simp [sameShape, h, sameShape_of_shape? s₁ x x' hx hx', sameShape_of_shape? s₂ y y' hy hy',
      sameShape_of_shape? s₃ z z' hz hz']
  | .letIn _ _ s₁ s₂, t, u, ht, hu => by
    obtain ⟨_, x, y, rfl, rfl, hx, hy⟩ := shape?_cases ht
    obtain ⟨_, x', y', rfl, h, hx', hy'⟩ := shape?_cases hu
    simp [sameShape, h, sameShape_of_shape? s₁ x x' hx hx', sameShape_of_shape? s₂ y y' hy hy']
  | .list _ ss, t, u, ht, hu => by
    obtain ⟨_, xs, rfl, rfl, hxs⟩ := shape?_cases ht
    obtain ⟨_, xs', rfl, h, hxs'⟩ := shape?_cases hu
    simp [sameShape, h, sameShapes_of_shapeAll? ss xs xs' hxs hxs']
  | .index _ s₁ s₂, t, u, ht, hu => by
    obtain ⟨_, x, y, rfl, rfl, hx, hy⟩ := shape?_cases ht
    obtain ⟨_, x', y', rfl, h, hx', hy'⟩ := shape?_cases hu
    simp [sameShape, h, sameShape_of_shape? s₁ x x' hx hx', sameShape_of_shape? s₂ y y' hy hy']
  | .call _ _ ss, t, u, ht, hu => by
    obtain ⟨_, xs, rfl, rfl, hxs⟩ := shape?_cases ht
    obtain ⟨_, xs', rfl, h, hxs'⟩ := shape?_cases hu
    simp [sameShape, h, sameShapes_of_shapeAll? ss xs xs' hxs hxs']

theorem sameShapes_of_shapeAll? : (ss : List (Form Unit)) → (ts us : List Tree) →
    shapeAll? ts = some ss → shapeAll? us = some ss → sameShapes ts us = true
  | [], ts, us, ht, hu => by
    have hts : ts = [] := shapeAll?_cases ht
    have hus : us = [] := shapeAll?_cases hu
    rw [hts, hus, sameShapes]
  | s :: ss, ts, us, ht, hu => by
    obtain ⟨x, xs, rfl, hx, hxs⟩ := shapeAll?_cases ht
    obtain ⟨x', xs', rfl, hx', hxs'⟩ := shapeAll?_cases hu
    simp [sameShapes, sameShape_of_shape? s x x' hx hx',
      sameShapes_of_shapeAll? ss xs xs' hxs hxs']

end

/-- The two trees have a form each, of one shape. -/
def Alike (t u : Tree) : Prop :=
  ∃ f g, t.form? = some f ∧ u.form? = some g ∧ f.shape = g.shape

/-- The trees have forms that agree in shape one by one. -/
def AllAlike (ts us : List Tree) : Prop :=
  ∃ fs gs, formAll? ts = some fs ∧ formAll? us = some gs ∧ Form.shapes fs = Form.shapes gs

mutual

/-- Two trees that pass the comparison have one shape. -/
theorem alike_of_sameShape : (t u : Tree) → t.sameShape u = true → t.Alike u
  -- nothing passes together with a faulty tree, not even the same one
  | dangling _, u, h | raggedList _, u, h | raggedCall _ _, u, h => by
    simp [sameShape] at h
  | const s v, u, h => by
    cases u with
    | const t w =>
      have hty : s.ty = t.ty := by simpa [sameShape] using h
      exact ⟨.const s.ty v, .const t.ty w, rfl, rfl, by simp [hty]⟩
    | _ => simp [sameShape] at h
  | param s i, u, h => by
    cases u with
    | param t j =>
      obtain ⟨hty, rfl⟩ : s.ty = t.ty ∧ i = j := by simpa [sameShape] using h
      exact ⟨.param s.ty i, .param t.ty i, rfl, rfl, by rw [hty]⟩
    | _ => simp [sameShape] at h
  | localVar s i, u, h => by
    cases u with
    | localVar t j =>
      obtain ⟨hty, rfl⟩ : s.ty = t.ty ∧ i = j := by simpa [sameShape] using h
      exact ⟨.localVar s.ty i, .localVar t.ty i, rfl, rfl, by rw [hty]⟩
    | _ => simp [sameShape] at h
  | unary s op x, u, h => by
    cases u with
    | unary t oq x' =>
      simp only [sameShape, Bool.and_eq_true, decide_eq_true_eq] at h
      obtain ⟨⟨hty, rfl⟩, hx⟩ := h
      obtain ⟨f, g, hf, hg, hfg⟩ := alike_of_sameShape x x' hx
      exact ⟨.unary s.ty op f, .unary t.ty op g, by rw [form?, hf]; rfl, by rw [form?, hg]; rfl,
        by simp [hty, hfg]⟩
    | _ => simp [sameShape] at h
  | binary s op x y, u, h => by
    cases u with
    | binary t oq x' y' =>
      simp only [sameShape, Bool.and_eq_true, decide_eq_true_eq] at h
      obtain ⟨⟨⟨hty, rfl⟩, hx⟩, hy⟩ := h
      obtain ⟨f, g, hf, hg, hfg⟩ := alike_of_sameShape x x' hx
      obtain ⟨f', g', hf', hg', hfg'⟩ := alike_of_sameShape y y' hy
      exact ⟨.binary s.ty op f f', .binary t.ty op g g', by rw [form?, hf, hf']; rfl,
        by rw [form?, hg, hg']; rfl, by simp [hty, hfg, hfg']⟩
    | _ => simp [sameShape] at h
  | ite s x y z, u, h => by
    cases u with
    | ite t x' y' z' =>
      simp only [sameShape, Bool.and_eq_true, decide_eq_true_eq] at h
      obtain ⟨⟨⟨hty, hx⟩, hy⟩, hz⟩ := h
      obtain ⟨f, g, hf, hg, hfg⟩ := alike_of_sameShape x x' hx
      obtain ⟨f', g', hf', hg', hfg'⟩ := alike_of_sameShape y y' hy
      obtain ⟨f'', g'', hf'', hg'', hfg''⟩ := alike_of_sameShape z z' hz
      exact ⟨.ite s.ty f f' f'', .ite t.ty g g' g'', by rw [form?, hf, hf', hf'']; rfl,
        by rw [form?, hg, hg', hg'']; rfl, by simp [hty, hfg, hfg', hfg'']⟩
    | _ => simp [sameShape] at h
  | letIn s i x y, u, h => by
    cases u with
    | letIn t j x' y' =>
      simp only [sameShape, Bool.and_eq_true, decide_eq_true_eq] at h
      obtain ⟨⟨⟨hty, rfl⟩, hx⟩, hy⟩ := h
      obtain ⟨f, g, hf, hg, hfg⟩ := alike_of_sameShape x x' hx
      obtain ⟨f', g', hf', hg', hfg'⟩ := alike_of_sameShape y y' hy
      exact ⟨.letIn s.ty i f f', .letIn t.ty i g g', by rw [form?, hf, hf']; rfl,
        by rw [form?, hg, hg']; rfl, by simp [hty, hfg, hfg']⟩
    | _ => simp [sameShape] at h
  | list s xs, u, h => by
    cases u with
    | list t xs' =>
      simp only [sameShape, Bool.and_eq_true, decide_eq_true_eq] at h
      obtain ⟨fs, gs, hfs, hgs, hfgs⟩ := allAlike_of_sameShapes xs xs' h.2
      exact ⟨.list s.ty fs, .list t.ty gs, by rw [form?, hfs]; rfl, by rw [form?, hgs]; rfl,
        by simp [h.1, hfgs]⟩
    | _ => simp [sameShape] at h
  | index s x y, u, h => by
    cases u with
    | index t x' y' =>
      simp only [sameShape, Bool.and_eq_true, decide_eq_true_eq] at h
      obtain ⟨⟨hty, hx⟩, hy⟩ := h
      obtain ⟨f, g, hf, hg, hfg⟩ := alike_of_sameShape x x' hx
      obtain ⟨f', g', hf', hg', hfg'⟩ := alike_of_sameShape y y' hy
      exact ⟨.index s.ty f f', .index t.ty g g', by rw [form?, hf, hf']; rfl,
        by rw [form?, hg, hg']; rfl, by simp [hty, hfg, hfg']⟩
    | _ => simp [sameShape] at h
  | call s b xs, u, h => by
    cases u with
    | call t b' xs' =>
      simp only [sameShape, Bool.and_eq_true, decide_eq_true_eq] at h
      obtain ⟨⟨hty, rfl⟩, hxs⟩ := h
      obtain ⟨fs, gs, hfs, hgs, hfgs⟩ := allAlike_of_sameShapes xs xs' hxs
      exact ⟨.call s.ty b fs, .call t.ty b gs, by rw [form?, hfs]; rfl, by rw [form?, hgs]; rfl,
        by simp [hty, hfgs]⟩
    | _ => simp [sameShape] at h

theorem allAlike_of_sameShapes : (ts us : List Tree) → sameShapes ts us = true → AllAlike ts us
  | [], us, h => by
    cases us with
    | nil => exact ⟨[], [], rfl, rfl, rfl⟩
    | cons y ys => simp [sameShapes] at h
  | x :: xs, us, h => by
    cases us with
    | nil => simp [sameShapes] at h
    | cons y ys =>
      simp only [sameShapes, Bool.and_eq_true] at h
      obtain ⟨f, g, hf, hg, hfg⟩ := alike_of_sameShape x y h.1
      obtain ⟨fs, gs, hfs, hgs, hfgs⟩ := allAlike_of_sameShapes xs ys h.2
      exact ⟨f :: fs, g :: gs, by rw [formAll?, hf, hfs]; rfl, by rw [formAll?, hg, hgs]; rfl,
        by simp [hfg, hfgs]⟩

end

/-- The comparison accepts two trees exactly if they have one shape. -/
theorem sameShape_iff {t u : Tree} : t.sameShape u = true ↔ t.Alike u := by
  constructor
  · exact alike_of_sameShape t u
  · rintro ⟨f, g, hf, hg, hfg⟩
    exact sameShape_of_shape? f.shape t u (by rw [shape?, hf]; rfl) (by rw [shape?, hg, hfg]; rfl)

end Tree

/-! ### Words -/

section Words

variable {σ κ : Type} (k : σ → Nat → σ)

/-- The kind and the type of a node. -/
def Ty.foldHead (t : Ty) (kind : Nat) (s : σ) : σ := t.foldWords k (k s kind)

namespace Form

mutual

/-- The words of a form in pre-order. -/
def foldWords : Form κ → σ → σ
  | const t _, s => k (t.foldHead k 0 s) 0
  | param t i, s => k (k (t.foldHead k 1 s) i) 0
  | localVar t slot, s => k (k (t.foldHead k 2 s) slot) 0
  | unary t op x, s => x.foldWords (k (k (t.foldHead k 3 s) op.code) 1)
  | binary t op l r, s => r.foldWords (l.foldWords (k (k (t.foldHead k 4 s) op.code) 2))
  | ite t c x y, s => y.foldWords (x.foldWords (c.foldWords (k (t.foldHead k 5 s) 3)))
  | letIn t slot i b, s => b.foldWords (i.foldWords (k (k (t.foldHead k 6 s) slot) 2))
  | list t xs, s => foldWordsAll xs (k (t.foldHead k 7 s) xs.length)
  | index t r i, s => i.foldWords (r.foldWords (k (t.foldHead k 8 s) 2))
  | call t f xs, s => foldWordsAll xs (k (k (t.foldHead k 9 s) f.code) xs.length)

/-- The words of several forms, one after the other. -/
def foldWordsAll : List (Form κ) → σ → σ
  | [], s => s
  | x :: xs, s => foldWordsAll xs (x.foldWords s)

end

end Form

namespace Tree

mutual

/-- The words of a tree in which nothing dangles are those of its shape. -/
theorem foldWords_of_shape? : (f : Form Unit) → (t : Tree) → (s : σ) → t.shape? = some f →
    t.foldWords k s = f.foldWords k s
  | .const _ _, t, s, h => by
    obtain ⟨_, _, rfl, rfl⟩ := shape?_cases h
    rfl
  | .param _ _, t, s, h => by
    obtain ⟨_, rfl, rfl⟩ := shape?_cases h
    rfl
  | .localVar _ _, t, s, h => by
    obtain ⟨_, rfl, rfl⟩ := shape?_cases h
    rfl
  | .unary _ _ f, t, s, h => by
    obtain ⟨_, x, rfl, rfl, hx⟩ := shape?_cases h
    rw [foldWords, foldWords_of_shape? f x _ hx]
    rfl
  | .binary _ _ f g, t, s, h => by
    obtain ⟨_, x, y, rfl, rfl, hx, hy⟩ := shape?_cases h
    rw [foldWords, foldWords_of_shape? f x _ hx, foldWords_of_shape? g y _ hy]
    rfl
  | .ite _ f g m, t, s, h => by
    obtain ⟨_, x, y, z, rfl, rfl, hx, hy, hz⟩ := shape?_cases h
    rw [foldWords, foldWords_of_shape? f x _ hx, foldWords_of_shape? g y _ hy,
      foldWords_of_shape? m z _ hz]
    rfl
  | .letIn _ _ f g, t, s, h => by
    obtain ⟨_, x, y, rfl, rfl, hx, hy⟩ := shape?_cases h
    rw [foldWords, foldWords_of_shape? f x _ hx, foldWords_of_shape? g y _ hy]
    rfl
  | .list _ fs, t, s, h => by
    obtain ⟨_, xs, rfl, rfl, hxs⟩ := shape?_cases h
    obtain ⟨hall, hlen⟩ := foldWordsAll_of_shapeAll? fs xs hxs
    rw [foldWords, hall, hlen]
    rfl
  | .index _ f g, t, s, h => by
    obtain ⟨_, x, y, rfl, rfl, hx, hy⟩ := shape?_cases h
    rw [foldWords, foldWords_of_shape? f x _ hx, foldWords_of_shape? g y _ hy]
    rfl
  | .call _ _ fs, t, s, h => by
    obtain ⟨_, xs, rfl, rfl, hxs⟩ := shape?_cases h
    obtain ⟨hall, hlen⟩ := foldWordsAll_of_shapeAll? fs xs hxs
    rw [foldWords, hall, hlen]
    rfl

/-- Their number is written before them, so it has to agree as well. -/
theorem foldWordsAll_of_shapeAll? : (fs : List (Form Unit)) → (ts : List Tree) →
    shapeAll? ts = some fs →
    (∀ s, foldWordsAll k ts s = Form.foldWordsAll k fs s) ∧ ts.length = fs.length
  | [], ts, h => by
    have hts : ts = [] := shapeAll?_cases h
    rw [hts]
    exact ⟨fun _ => rfl, rfl⟩
  | f :: fs, ts, h => by
    obtain ⟨x, xs, rfl, hx, hxs⟩ := shapeAll?_cases h
    obtain ⟨hall, hlen⟩ := foldWordsAll_of_shapeAll? fs xs hxs
    refine ⟨fun s => ?_, by rw [List.length_cons, List.length_cons, hlen]⟩
    rw [foldWordsAll, foldWords_of_shape? f x s hx, hall]
    rfl

end

end Tree

end Words

namespace Lambda

/-- Two expressions have the same shape exactly if they have the same parameter
types and a form each, of one shape. -/
theorem sameShape_iff {a b : Lambda} :
    a.sameShape b = true ↔ a.paramTypes = b.paramTypes ∧ a.tree.Alike b.tree := by
  rw [sameShape, Bool.and_eq_true, decide_eq_true_eq, Tree.sameShape_iff]

/-- There is a type for each parameter. -/
theorem length_paramTypes (e : Lambda) : e.paramTypes.length = e.arity := List.length_map _

theorem arity_congr {a b : Lambda} (h : a.paramTypes = b.paramTypes) : a.arity = b.arity := by
  rw [← length_paramTypes, h, length_paramTypes]

/-- Having the same shape is symmetric, though the walk treats its trees differently. -/
theorem sameShape_symm {a b : Lambda} (h : a.sameShape b = true) : b.sameShape a = true := by
  obtain ⟨hp, f, g, hf, hg, hfg⟩ := sameShape_iff.mp h
  exact sameShape_iff.mpr ⟨hp.symm, g, f, hg, hf, hfg.symm⟩

/-- Having the same shape is transitive. -/
theorem sameShape_trans {a b c : Lambda} (hab : a.sameShape b = true)
    (hbc : b.sameShape c = true) : a.sameShape c = true := by
  obtain ⟨hp, f, g, hf, hg, hfg⟩ := sameShape_iff.mp hab
  obtain ⟨hq, g', k, hg', hk, hgk⟩ := sameShape_iff.mp hbc
  have hgg : g = g' := Option.some.inj (hg.symm.trans hg')
  exact sameShape_iff.mpr ⟨hp.trans hq, f, k, hf, hk, by rw [hfg, hgg, hgk]⟩

/-- Expressions of one shape are written with the same words. -/
theorem foldWords_of_sameShape {σ : Type} (k : σ → Nat → σ) {a b : Lambda}
    (h : a.sameShape b = true) (s : σ) : a.foldWords k s = b.foldWords k s := by
  obtain ⟨hp, f, g, hf, hg, hfg⟩ := sameShape_iff.mp h
  rw [foldWords, foldWords, hp, arity_congr hp,
    Tree.foldWords_of_shape? k f.shape a.tree _ (by rw [Tree.shape?, hf]; rfl),
    Tree.foldWords_of_shape? k f.shape b.tree _ (by rw [Tree.shape?, hg, hfg]; rfl)]

/-- Expressions of one shape have one fingerprint. -/
theorem fingerprint_of_sameShape {a b : Lambda} (h : a.sameShape b = true) :
    a.fingerprint = b.fingerprint := by
  rw [fingerprint, fingerprint, foldWords_of_sameShape mix h]

end Lambda

namespace Key

/-- Keys of one shape are found under the same keys. -/
theorem same_ofLambda_congr {a b : Lambda} (h : a.sameShape b = true) (k : Key) :
    k.same (ofLambda a) = k.same (ofLambda b) := by
  -- the shapes are compared with a third one, so it takes both directions
  have hshape : k.lambda.sameShape a = k.lambda.sameShape b := by
    rw [Bool.eq_iff_iff]
    exact ⟨fun hk => Lambda.sameShape_trans hk h,
      fun hk => Lambda.sameShape_trans hk (Lambda.sameShape_symm h)⟩
  show (decide (k.hash = a.fingerprint) && k.lambda.sameShape a)
    = (decide (k.hash = b.fingerprint) && k.lambda.sameShape b)
  rw [hshape, Lambda.fingerprint_of_sameShape h]

/-- The probe replaces constants and leaves parameters alone. -/
theorem probe_rewrites : Arena.Rewrites
    (fun
      | .const _, ty => .const ty.default
      | kind, _ => kind)
    (fun t _ => .const t t.default) .param where
  const _ _ _ _ := rfl
  param _ _ _ _ := rfl
  other kind t hc hp := by
    cases kind with
    | const v => exact absurd rfl (hc v)
    | _ => rfl

/-- An expression in which nothing dangles has the shape of its probe. -/
theorem sameShape_probe {e : Lambda} {f : Form Value} (hf : e.tree.form? = some f) :
    (probe e).lambda.sameShape e = true := by
  refine Lambda.sameShape_iff.mpr ⟨rfl, f.map fun t _ => t.default, f, ?_, hf, f.shape_map _⟩
  have h := e.arena.form?_mapKinds probe_rewrites e.root
  rw [show e.arena.form? e.root = some f from hf] at h
  exact h

end Key

end Stencil
