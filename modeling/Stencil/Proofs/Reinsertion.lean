import Stencil.Proofs.Meaning
import Stencil.Proofs.Printing

/-!
# Taking constants out and putting them back

The skeleton of an expression with its constants put back has the form of the
expression again (`Form.fill_hole`). Other constants of the same types can be put
back as well: they make up a form of the same shape (`Form.exists_of_consts`), and
skeletons of one shape are told apart by the types of their constants only. A
skeleton is itself a well-formed expression, and one without constants.

So extraction and reinsertion are inverse to each other, in both directions
(`Lambda.extract_reinsert`), although the one walks trees and the other rewrites an
arena in place.
-/

namespace Stencil

/-! ### Filling holes -/

namespace Form

/-- What goes in the place of a parameter: from `arity` on the values, in order. -/
def filling (arity : Nat) (values : List Value) (t : Ty) (i : Nat) : Form Value :=
  ((if arity ≤ i then values.toArray[i - arity]? else none).map (.const t)).getD (.param t i)

/-- Puts the values in the place of the parameters from `arity` on. -/
def fill (arity : Nat) (values : List Value) (f : Form Value) : Form Value :=
  f.subst .const (filling arity values)

def fillAll (arity : Nat) (values : List Value) (fs : List (Form Value)) : List (Form Value) :=
  substAll .const (filling arity values) fs

variable {arity : Nat} {values : List Value}

mutual

/-- The constants of a form, put back into its holes, restore the form. -/
theorem fill_hole : (f : Form Value) → {scope : List Nat} → (n : Nat) → f.Proper arity scope →
    f.consts <+: values.drop n → (f.hole (arity + n)).fill arity values = f
  | const t v, _, n, _, hc => by
    obtain ⟨rest, hrest⟩ := hc
    have hget : values[n]? = some v := by
      rw [← Nat.add_zero n, ← List.getElem?_drop, ← hrest]
      rfl
    simp [hole, fill, subst, filling, hget]
  | param t i, _, n, hf, _ => by
    have hi : ¬ arity ≤ i := Nat.not_le.mpr hf
    simp [hole, fill, subst, filling, hi]
  | localVar _ _, _, _, _, _ => rfl
  | unary t op x, _, n, hf, hc => congrArg (unary t op) (fill_hole x n hf hc)
  | binary t op l r, _, n, hf, hc => by
    obtain ⟨hl, hr⟩ := prefix_drop_of_append hc
    show binary t op ((l.hole _).fill arity values) ((r.hole _).fill arity values) = _
    rw [fill_hole l n hf.1 hl, Nat.add_assoc, fill_hole r _ hf.2 hr]
  | ite t c x y, _, n, hf, hc => by
    obtain ⟨hb, hxy⟩ := prefix_drop_of_append hc
    obtain ⟨hx, hy⟩ := prefix_drop_of_append hxy
    show ite t ((c.hole _).fill arity values) ((x.hole _).fill arity values)
      ((y.hole _).fill arity values) = _
    rw [fill_hole c n hf.1 hb, Nat.add_assoc, fill_hole x _ hf.2.1 hx, Nat.add_assoc,
      fill_hole y _ hf.2.2 hy]
  | letIn t slot i b, _, n, hf, hc => by
    obtain ⟨hi, hb⟩ := prefix_drop_of_append hc
    show letIn t slot ((i.hole _).fill arity values) ((b.hole _).fill arity values) = _
    rw [fill_hole i n hf.1 hi, Nat.add_assoc, fill_hole b _ hf.2 hb]
  | list t xs, _, n, hf, hc => congrArg (list t) (fillAll_holeAll xs n hf hc)
  | index t r i, _, n, hf, hc => by
    obtain ⟨hr, hi⟩ := prefix_drop_of_append hc
    show index t ((r.hole _).fill arity values) ((i.hole _).fill arity values) = _
    rw [fill_hole r n hf.1 hr, Nat.add_assoc, fill_hole i _ hf.2 hi]
  | call t b xs, _, n, hf, hc => congrArg (call t b) (fillAll_holeAll xs n hf hc)

theorem fillAll_holeAll : (fs : List (Form Value)) → {scope : List Nat} → (n : Nat) →
    AllProper arity scope fs → constsAll fs <+: values.drop n →
    fillAll arity values (holeAll (arity + n) fs) = fs
  | [], _, _, _, _ => rfl
  | x :: xs, _, n, hf, hc => by
    obtain ⟨hx, hxs⟩ := prefix_drop_of_append hc
    show (x.hole _).fill arity values :: fillAll arity values (holeAll _ xs) = _
    rw [fill_hole x n hf.1 hx, Nat.add_assoc, fillAll_holeAll xs _ hf.2 hxs]

end

mutual

/-- The constants of a form can be exchanged for any others of the same types. -/
theorem exists_of_consts : (f : Form Value) → {scope : List Nat} → {ws : List Value} →
    f.Proper arity scope → ws.map Value.ty = f.consts.map Value.ty →
    ∃ g : Form Value, g.shape = f.shape ∧ g.consts = ws ∧ g.Proper arity scope
  | const t v, _, ws, hf, hw => by
    obtain ⟨w, rfl, hty⟩ := List.map_eq_singleton_iff.mp hw
    exact ⟨.const t w, rfl, rfl, hty.trans hf⟩
  | param t i, _, ws, hf, hw => ⟨.param t i, rfl, (List.map_eq_nil_iff.mp hw).symm, hf⟩
  | localVar t slot, _, ws, hf, hw => ⟨.localVar t slot, rfl, (List.map_eq_nil_iff.mp hw).symm, hf⟩
  | unary t op x, _, ws, hf, hw => by
    obtain ⟨g, hs, hc, hg⟩ := exists_of_consts x hf hw
    exact ⟨.unary t op g, by simp [hs], hc, hg⟩
  | binary t op l r, _, ws, hf, hw => by
    rw [consts, List.map_append] at hw
    obtain ⟨us, vs, rfl, hu, hv⟩ := List.map_eq_append_iff.mp hw
    obtain ⟨g, hs, rfl, hg⟩ := exists_of_consts l hf.1 hu
    obtain ⟨k, hs', rfl, hk⟩ := exists_of_consts r hf.2 hv
    exact ⟨.binary t op g k, by simp [hs, hs'], rfl, hg, hk⟩
  | ite t c x y, _, ws, hf, hw => by
    rw [consts, List.map_append, List.map_append] at hw
    obtain ⟨us, rest, rfl, hu, hrest⟩ := List.map_eq_append_iff.mp hw
    obtain ⟨vs, xs, rfl, hv, hx⟩ := List.map_eq_append_iff.mp hrest
    obtain ⟨g, hs, rfl, hg⟩ := exists_of_consts c hf.1 hu
    obtain ⟨k, hs', rfl, hk⟩ := exists_of_consts x hf.2.1 hv
    obtain ⟨m, hs'', rfl, hm⟩ := exists_of_consts y hf.2.2 hx
    exact ⟨.ite t g k m, by simp [hs, hs', hs''], rfl, hg, hk, hm⟩
  | letIn t slot i b, _, ws, hf, hw => by
    rw [consts, List.map_append] at hw
    obtain ⟨us, vs, rfl, hu, hv⟩ := List.map_eq_append_iff.mp hw
    obtain ⟨g, hs, rfl, hg⟩ := exists_of_consts i hf.1 hu
    obtain ⟨k, hs', rfl, hk⟩ := exists_of_consts b hf.2 hv
    exact ⟨.letIn t slot g k, by simp [hs, hs'], rfl, hg, hk⟩
  | list t xs, _, ws, hf, hw => by
    obtain ⟨gs, hs, hc, hg⟩ := exists_of_constsAll xs hf hw
    exact ⟨.list t gs, by simp [hs], hc, hg⟩
  | index t r i, _, ws, hf, hw => by
    rw [consts, List.map_append] at hw
    obtain ⟨us, vs, rfl, hu, hv⟩ := List.map_eq_append_iff.mp hw
    obtain ⟨g, hs, rfl, hg⟩ := exists_of_consts r hf.1 hu
    obtain ⟨k, hs', rfl, hk⟩ := exists_of_consts i hf.2 hv
    exact ⟨.index t g k, by simp [hs, hs'], rfl, hg, hk⟩
  | call t b xs, _, ws, hf, hw => by
    obtain ⟨gs, hs, hc, hg⟩ := exists_of_constsAll xs hf hw
    exact ⟨.call t b gs, by simp [hs], hc, hg⟩

theorem exists_of_constsAll : (fs : List (Form Value)) → {scope : List Nat} →
    {ws : List Value} → AllProper arity scope fs → ws.map Value.ty = (constsAll fs).map Value.ty →
    ∃ gs : List (Form Value), shapes gs = shapes fs ∧ constsAll gs = ws ∧ AllProper arity scope gs
  | [], _, _, _, hw => ⟨[], rfl, (List.map_eq_nil_iff.mp hw).symm, trivial⟩
  | x :: xs, _, ws, hf, hw => by
    rw [constsAll, List.map_append] at hw
    obtain ⟨us, vs, rfl, hu, hv⟩ := List.map_eq_append_iff.mp hw
    obtain ⟨g, hs, rfl, hg⟩ := exists_of_consts x hf.1 hu
    obtain ⟨gs, hs', rfl, hgs⟩ := exists_of_constsAll xs hf.2 hv
    exact ⟨g :: gs, by simp [hs, hs'], rfl, hg, hgs⟩

end

variable {κ μ ν : Type}

mutual

/-- Holes are declared parameters of the skeleton, and what was proper stays so. -/
theorem proper_hole {bound : Nat} (hbound : arity ≤ bound) : (f : Form Value) →
    {scope : List Nat} → (next : Nat) → f.Proper arity scope → next + f.consts.length ≤ bound →
    (f.hole next : Form Value).Proper bound scope
  | const _ _, _, next, _, hn => hn
  | param _ _, _, _, hf, _ => Nat.lt_of_lt_of_le hf hbound
  | localVar _ _, _, _, hf, _ => hf
  | unary _ _ x, _, next, hf, hn => proper_hole hbound x next hf hn
  | binary _ _ l r, _, next, hf, hn | index _ l r, _, next, hf, hn
  | letIn _ _ l r, _, next, hf, hn => by
    rw [consts, List.length_append] at hn
    exact ⟨proper_hole hbound l next hf.1 (by omega), proper_hole hbound r _ hf.2 (by omega)⟩
  | ite _ c x y, _, next, hf, hn => by
    rw [consts, List.length_append, List.length_append] at hn
    exact ⟨proper_hole hbound c next hf.1 (by omega), proper_hole hbound x _ hf.2.1 (by omega),
      proper_hole hbound y _ hf.2.2 (by omega)⟩
  | list _ xs, _, next, hf, hn | call _ _ xs, _, next, hf, hn =>
    allProper_holeAll hbound xs next hf hn

theorem allProper_holeAll {bound : Nat} (hbound : arity ≤ bound) : (fs : List (Form Value)) →
    {scope : List Nat} → (next : Nat) → AllProper arity scope fs →
    next + (constsAll fs).length ≤ bound → AllProper bound scope (holeAll next fs)
  | [], _, _, _, _ => trivial
  | x :: xs, _, next, hf, hn => by
    rw [constsAll, List.length_append] at hn
    exact ⟨proper_hole hbound x next hf.1 (by omega),
      allProper_holeAll hbound xs _ hf.2 (by omega)⟩

end

mutual

/-- Where there are holes only, there is nothing to take out. -/
theorem hole_hole : (f : Form κ) → (n m : Nat) →
    ((f.hole n : Form μ).hole m : Form ν) = f.hole n
  | const _ _, _, _ | param _ _, _, _ | localVar _ _, _, _ => rfl
  | unary _ _ x, _, _ => by simp only [hole, hole_hole x]
  | binary _ _ l r, _, _ | letIn _ _ l r, _, _ | index _ l r, _, _ => by
    simp only [hole, hole_hole l, hole_hole r]
  | ite _ c x y, _, _ => by simp only [hole, hole_hole c, hole_hole x, hole_hole y]
  | list _ xs, _, _ | call _ _ xs, _, _ => by simp only [hole, holeAll_holeAll xs]

theorem holeAll_holeAll : (fs : List (Form κ)) → (n m : Nat) →
    (holeAll m (holeAll n fs : List (Form μ)) : List (Form ν)) = holeAll n fs
  | [], _, _ => rfl
  | x :: xs, _, _ => by simp only [holeAll, hole_hole x, holeAll_holeAll xs]

end

end Form

/-! ### Skeletons -/

theorem placeholders_congr {vs ws : List Value} (h : vs.map Value.ty = ws.map Value.ty)
    (first : Nat) : placeholders first vs = placeholders first ws := by
  induction vs generalizing ws first with
  | nil => rw [List.map_eq_nil_iff.mp h.symm]
  | cons v vs ih =>
    obtain ⟨w, ws, rfl, hv, hvs⟩ := List.map_eq_cons_iff.mp h.symm
    rw [placeholders, placeholders, hv, ih hvs.symm]

namespace Form

/-- A skeleton tells the shape and the types of the constants, and no more. -/
theorem skeleton_congr {f g : Form Value} (hshape : g.shape = f.shape)
    (hty : g.consts.map Value.ty = f.consts.map Value.ty) (params : List Param) :
    g.skeleton params = f.skeleton params := by
  have hhole : (g.hole params.length : Form Value) = f.hole params.length := by
    rw [← g.hole_shape, hshape, f.hole_shape]
  simp only [skeleton, hhole, placeholders_congr hty]

theorem skeleton_hole (f : Form Value) (params : List Param) :
    (f.hole params.length).skeleton (f.skeleton params).params = f.skeleton params := by
  simp only [skeleton, hole_hole, consts_hole, placeholders, List.append_nil]

end Form

namespace Lambda

theorem HasForm.skeleton {e : Lambda} {f : Form Value} (h : e.HasForm f) :
    (f.skeleton e.params).HasForm (f.hole e.arity) where
  form := f.form?_skeleton e.params
  proper := by
    rw [arity_skeleton]
    exact f.proper_hole (Nat.le_add_right _ _) _ h.proper (Nat.le_refl _)

/-- A skeleton is its own skeleton. -/
theorem extract_skeleton {e : Lambda} {f : Form Value} (h : e.HasForm f) :
    (f.skeleton e.params).extract = .ok ⟨f.skeleton e.params, []⟩ := by
  rw [extract_eq h.skeleton, Form.consts_hole, arity, Form.skeleton_hole]

theorem params_reinsert (e : Lambda) (f : Form Value) (values : List Value) :
    ((f.skeleton e.params).reinsert e.arity values).params = e.params :=
  List.take_left

/-- The skeleton of one form, with the constants of another form of its shape. -/
theorem hasForm_reinsert {e : Lambda} {f g : Form Value} (hshape : g.shape = f.shape)
    (hg : g.Proper e.arity []) :
    ((f.skeleton e.params).reinsert e.arity g.consts).HasForm g where
  form := by
    have hform := (f.skeleton e.params).arena.form?_mapKinds (Key.substitute_rewrites fun i _ =>
      if e.arity ≤ i then g.consts.toArray[i - e.arity]? else none) (f.skeleton e.params).root
    rw [show (f.skeleton e.params).arena.form? (f.skeleton e.params).root = _ from
      f.form?_skeleton e.params, ← f.hole_shape, ← hshape, g.hole_shape] at hform
    have hfill : (g.hole e.arity).fill e.arity g.consts = g := g.fill_hole 0 hg List.prefix_rfl
    exact hform.trans (congrArg some hfill)
  proper := by
    rw [arity, params_reinsert]
    exact hg

/-- Extraction and reinsertion are inverse. With its own constants the skeleton of
an expression has the shape, the constants and the text of the expression. With any
constants of the same types it is an expression that is split into just these two
again. And a skeleton is its own skeleton. -/
theorem extract_reinsert {e : Lambda} {x : Extracted} (h : e.extract = .ok x) :
    ((x.skeleton.reinsert e.arity x.values).sameShape e = true ∧
      (x.skeleton.reinsert e.arity x.values).extractValues = .ok x.values ∧
      ∃ text, e.render? = some text ∧
        (x.skeleton.reinsert e.arity x.values).render? = some text) ∧
    (∀ ws : List Value, ws.map Value.ty = x.values.map Value.ty →
      (x.skeleton.reinsert e.arity ws).extract = .ok ⟨x.skeleton, ws⟩) ∧
    x.skeleton.extract = .ok ⟨x.skeleton, []⟩ := by
  obtain ⟨f, hf, rfl⟩ := extract_ok h
  have hparams := e.params_reinsert f
  have hback : ((f.skeleton e.params).reinsert e.arity f.consts).HasForm f :=
    hasForm_reinsert rfl hf.proper
  refine ⟨⟨?_, ?_, _, render?_eq hf.form, ?_⟩, ?_, extract_skeleton hf⟩
  · refine (hback.sameShape_iff hf).mpr ⟨?_, rfl⟩
    rw [paramTypes, hparams, paramTypes]
  · rw [extractValues_eq, extract_eq hback]
    rfl
  · rw [render?_eq hback.form, header, hparams, header]
  · intro ws hty
    -- the constants that are put in make up a form of the same shape
    obtain ⟨g, hshape, rfl, hg⟩ := f.exists_of_consts hf.proper hty
    rw [extract_eq (hasForm_reinsert hshape hg), hparams, Form.skeleton_congr hshape hty]

/-- `[max(n, 2), 2][n % 2]`, with one node for all twos and the items of the list in
the table before the arguments of the call. -/
def twos : Lambda where
  params := [⟨"n", .int⟩]
  arena :=
    { nodes := #[⟨.const (.int 2), .int⟩, ⟨.param 0, .int⟩, ⟨.call .max ⟨2, 2⟩, .int⟩,
        ⟨.list ⟨0, 2⟩, .list .int⟩, ⟨.binary .mod 1 0, .int⟩, ⟨.index 3 4, .int⟩]
      table := #[2, 0, 1, 0] }
  root := 5

theorem extract_reinsert_twos : ∃ x, twos.extract = .ok x ∧
    x.values = [.int 2, .int 2, .int 2] ∧ x.skeleton.arena.table = #[0, 1, 2, 3] ∧
    (x.skeleton.reinsert 1 x.values).sameShape twos = true ∧
    (x.skeleton.reinsert 1 x.values).render? = some "|n: int| [max(n, 2), 2][(n % 2)]" ∧
    (x.skeleton.reinsert 1 [.int 7, .int 8, .int 9]).extract
      = .ok ⟨x.skeleton, [.int 7, .int 8, .int 9]⟩ ∧
    x.skeleton.extract = .ok ⟨x.skeleton, []⟩ := by
  obtain ⟨⟨hshape, -, text, htext, hback⟩, hother, hskeleton⟩ :=
    extract_reinsert (e := twos) rfl
  have hrender : twos.render? = some "|n: int| [max(n, 2), 2][(n % 2)]" := by decide +kernel
  cases htext.symm.trans hrender
  exact ⟨_, rfl, rfl, rfl, hshape, hback, hother [.int 7, .int 8, .int 9] rfl, hskeleton⟩

end Lambda

end Stencil
