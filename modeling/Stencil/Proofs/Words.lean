import Stencil.Proofs.Outline

/-!
# The words of a shape can be read back

A fingerprint is mixed from a stream of words: the number of parameters and their
types, then the outline of the root in pre-order, each node with its kind, its
type, its index, slot or operator, and the number of its children
(`Lambda.foldWords_eq`). Nothing separates these parts, and types and nodes take as
many words as they are deep. Still the stream says which shape it was written for:
two valid expressions with the same words have the same shape
(`Lambda.words_eq_iff_sameShape`), so that shapes can only collide where the words
are mixed.

The reason is that every part shows where it ends. Whatever follows it, a type is
cut off the front of a stream in one way only (`Ty.words_append_inj`), and so is
the rest of a label once its kind is known (`Label.data_append_inj`), a list of parts
once their number is known (`flatMap_append_inj`), and hence an outline
(`Outline.words_append_inj`).
-/

namespace Stencil

/-- The words of a type. -/
def Ty.words : Ty → List Nat
  | int => [0]
  | float => [1]
  | bool => [2]
  | str => [3]
  | unit => [4]
  | list elem => 5 :: elem.words

namespace Label

/-- The word for the kind of node. -/
def kind : Label → Nat
  | const => 0
  | param _ => 1
  | localVar _ => 2
  | unary _ => 3
  | binary _ => 4
  | ite => 5
  | letIn _ => 6
  | list => 7
  | index => 8
  | call _ => 9

/-- The word for what a label holds besides the kind, if it holds anything. -/
def data : Label → List Nat
  | const | ite | list | index => []
  | param i | localVar i | letIn i => [i]
  | unary op => [op.code]
  | binary op => [op.code]
  | call f => [f.code]

end Label

namespace Outline

mutual

/-- The words of an outline in pre-order. -/
def words : Outline → List Nat
  | node label t children =>
    label.kind :: (t.words ++ (label.data ++ children.length :: wordsAll children))

def wordsAll : List Outline → List Nat
  | [] => []
  | o :: os => o.words ++ wordsAll os

end

theorem wordsAll_eq_flatMap (os : List Outline) : wordsAll os = os.flatMap words := by
  induction os with
  | nil => rfl
  | cons o os ih => rw [wordsAll, ih, List.flatMap_cons]

end Outline

/-- The words of an expression with the given parameter types and outline. -/
def shapeWords (types : List Ty) (o : Outline) : List Nat :=
  types.length :: (types.flatMap Ty.words ++ o.words)

/-! ### What the fingerprint is mixed from -/

section

variable {σ κ : Type} (k : σ → Nat → σ)

theorem Ty.foldWords_eq (t : Ty) (s : σ) : t.foldWords k s = t.words.foldl k s := by
  induction t generalizing s with
  | list elem ih => exact ih (k s 5)
  | _ => rfl

theorem foldl_foldWords (types : List Ty) (s : σ) :
    types.foldl (fun s t => t.foldWords k s) s = (types.flatMap Ty.words).foldl k s := by
  induction types generalizing s with
  | nil => rfl
  | cons t types ih =>
    rw [List.foldl_cons, ih, t.foldWords_eq k, List.flatMap_cons, List.foldl_append]

theorem Form.length_outlines (fs : List (Form κ)) : (outlines fs).length = fs.length := by
  induction fs with
  | nil => rfl
  | cons f fs ih => rw [outlines, List.length_cons, ih, List.length_cons]

mutual

/-- A form is written with the words of its outline. -/
theorem Form.foldWords_eq : (f : Form κ) → (s : σ) →
    f.foldWords k s = f.outline.words.foldl k s
  | const _ _, _ | param _ _, _ | localVar _ _, _ => by
    simp [foldWords, outline, Outline.words, Outline.wordsAll, Label.kind, Label.data,
      Ty.foldHead, Ty.foldWords_eq]
  | unary _ _ x, _ => by
    simp [foldWords, outline, Outline.words, Outline.wordsAll, Label.kind, Label.data,
      Ty.foldHead, Ty.foldWords_eq, x.foldWords_eq]
  | binary _ _ x y, _ | letIn _ _ x y, _ | index _ x y, _ => by
    simp [foldWords, outline, Outline.words, Outline.wordsAll, Label.kind, Label.data,
      Ty.foldHead, Ty.foldWords_eq, x.foldWords_eq, y.foldWords_eq]
  | ite _ x y z, _ => by
    simp [foldWords, outline, Outline.words, Outline.wordsAll, Label.kind, Label.data,
      Ty.foldHead, Ty.foldWords_eq, x.foldWords_eq, y.foldWords_eq, z.foldWords_eq]
  | list _ xs, _ | call _ _ xs, _ => by
    simp [foldWords, outline, Outline.words, Label.kind, Label.data, Ty.foldHead,
      Ty.foldWords_eq, length_outlines, Form.foldWordsAll_eq xs]

theorem Form.foldWordsAll_eq : (fs : List (Form κ)) → (s : σ) →
    foldWordsAll k fs s = (Outline.wordsAll (outlines fs)).foldl k s
  | [], _ => rfl
  | x :: xs, _ => by
    simp [foldWordsAll, outlines, Outline.wordsAll, x.foldWords_eq, Form.foldWordsAll_eq xs]

end

/-- The words of an expression that has an outline, whatever is done with them. -/
theorem Lambda.foldWords_eq {e : Lambda} {types : List Ty} {o : Outline}
    (h : e.outline? = some (types, o)) (s : σ) :
    e.foldWords k s = (shapeWords types o).foldl k s := by
  obtain ⟨rfl, f, hf, rfl⟩ := outline?_eq_some_iff.mp h
  have hshape : e.tree.shape? = some f.shape := by
    rw [Tree.shape?, hf]
    rfl
  rw [foldWords, Tree.foldWords_of_shape? k f.shape e.tree _ hshape, foldl_foldWords,
    f.shape.foldWords_eq, f.outline_shape, shapeWords, List.foldl_cons, List.foldl_append,
    e.length_paramTypes]

end

theorem Lambda.words_eq {e : Lambda} {types : List Ty} {o : Outline}
    (h : e.outline? = some (types, o)) : e.words = shapeWords types o := by
  rw [words, foldWords_eq Array.push h, List.foldl_push_eq_append']
  simp

/-! ### Cutting a part off the front of a stream -/

theorem Ty.words_append_inj {t u : Ty} {r s : List Nat} (h : t.words ++ r = u.words ++ s) :
    t = u ∧ r = s := by
  induction t generalizing u with
  | list elem ih =>
    cases u with
    | list elem' =>
      have htail : elem.words ++ r = elem'.words ++ s := (List.cons.inj h).2
      obtain ⟨rfl, hrest⟩ := ih htail
      exact ⟨rfl, hrest⟩
    | _ => simp [words] at h
  | _ => cases u <;> simp_all [words]

theorem UnaryOp.getElem?_code (op : UnaryOp) : all[op.code]? = some op := by
  cases op <;> rfl

theorem BinaryOp.getElem?_code (op : BinaryOp) : all[op.code]? = some op := by
  cases op <;> rfl

theorem Builtin.getElem?_code (f : Builtin) : all[f.code]? = some f := by
  cases f <;> rfl

/-- What is listed in the order of its numbers can be told from its number. -/
theorem eq_of_code_eq {α : Type} {all : List α} {code : α → Nat}
    (hall : ∀ x, all[code x]? = some x) {x y : α} (h : code x = code y) : x = y := by
  have hy := hall y
  rw [← h, hall x] at hy
  exact Option.some.inj hy

/-- The kind says whether there is a further word, so the two together are cut off
in one way. -/
theorem Label.data_append_inj {l m : Label} (hkind : l.kind = m.kind) {r s : List Nat}
    (h : l.data ++ r = m.data ++ s) : l = m ∧ r = s := by
  cases l <;> cases m <;> simp [kind] at hkind
  case const.const | ite.ite | list.list | index.index => exact ⟨rfl, h⟩
  case param.param | localVar.localVar | letIn.letIn =>
    obtain ⟨rfl, hrest⟩ := List.cons.inj h
    exact ⟨rfl, hrest⟩
  case unary.unary =>
    obtain ⟨hcode, hrest⟩ := List.cons.inj h
    exact ⟨congrArg unary (eq_of_code_eq UnaryOp.getElem?_code hcode), hrest⟩
  case binary.binary =>
    obtain ⟨hcode, hrest⟩ := List.cons.inj h
    exact ⟨congrArg binary (eq_of_code_eq BinaryOp.getElem?_code hcode), hrest⟩
  case call.call =>
    obtain ⟨hcode, hrest⟩ := List.cons.inj h
    exact ⟨congrArg call (eq_of_code_eq Builtin.getElem?_code hcode), hrest⟩

/-- As many parts as announced are cut off in one way, if each of them is. -/
theorem flatMap_append_inj {α : Type} {code : α → List Nat} {xs ys : List α} {r s : List Nat}
    (hcode : ∀ x ∈ xs, ∀ y r s, code x ++ r = code y ++ s → x = y ∧ r = s)
    (hlen : xs.length = ys.length) (h : xs.flatMap code ++ r = ys.flatMap code ++ s) :
    xs = ys ∧ r = s := by
  induction xs generalizing ys with
  | nil =>
    cases List.eq_nil_of_length_eq_zero hlen.symm
    exact ⟨rfl, h⟩
  | cons x xs ih =>
    cases ys with
    | nil => cases hlen
    | cons y ys =>
      rw [List.flatMap_cons, List.flatMap_cons, List.append_assoc, List.append_assoc] at h
      obtain ⟨rfl, htail⟩ := hcode x List.mem_cons_self y _ _ h
      have hmem : ∀ x ∈ xs, ∀ y r s, code x ++ r = code y ++ s → x = y ∧ r = s := by
        intro x hx
        exact hcode x (List.mem_cons_of_mem _ hx)
      obtain ⟨rfl, hrest⟩ := ih hmem (Nat.succ.inj hlen) htail
      exact ⟨rfl, hrest⟩

/-- An outline is cut off the front of a stream in one way only. -/
theorem Outline.words_append_inj (o p : Outline) (r s : List Nat)
    (h : o.words ++ r = p.words ++ s) : o = p ∧ r = s := by
  match o, p, h with
  | node l t xs, node m u ys, h =>
    simp only [words, List.cons_append, List.append_assoc, wordsAll_eq_flatMap] at h
    obtain ⟨hkind, htype⟩ := List.cons.inj h
    obtain ⟨rfl, hdata⟩ := Ty.words_append_inj htype
    obtain ⟨rfl, hcount⟩ := Label.data_append_inj hkind hdata
    -- the number of children comes before the children
    obtain ⟨hlen, hchildren⟩ := List.cons.inj hcount
    have hchild : ∀ x ∈ xs, ∀ y r s, x.words ++ r = y.words ++ s → x = y ∧ r = s := by
      intro x hx
      exact words_append_inj x
    obtain ⟨rfl, hrest⟩ := flatMap_append_inj hchild hlen hchildren
    exact ⟨rfl, hrest⟩
termination_by o
decreasing_by
  have hsize := List.sizeOf_lt_of_mem hx
  simp only [node.sizeOf_spec]
  omega

theorem shapeWords_inj {types types' : List Ty} {o o' : Outline}
    (h : shapeWords types o = shapeWords types' o') : types = types' ∧ o = o' := by
  obtain ⟨hlen, htypes⟩ := List.cons.inj h
  obtain ⟨rfl, hwords⟩ := flatMap_append_inj (fun _ _ _ _ _ => Ty.words_append_inj) hlen htypes
  have hend : o.words ++ [] = o'.words ++ [] := by
    rw [List.append_nil, List.append_nil, hwords]
  exact ⟨rfl, (o.words_append_inj o' [] [] hend).1⟩

/-! ### Words and shapes -/

namespace Lambda

theorem Valid.outline? {e : Lambda} (h : e.Valid) : ∃ types o, e.outline? = some (types, o) := by
  obtain ⟨⟨types, o⟩, ho, -⟩ := sameShape_iff_outline?.mp (sameShape_self_iff.mpr h)
  exact ⟨types, o, ho⟩

/-- The words that a fingerprint is mixed from are a faithful account of the shape:
whatever is done with the words of a valid expression is done with this list of
them, and two valid expressions have the same list exactly if they have the same
shape. -/
theorem words_eq_iff_sameShape {a b : Lambda} (ha : a.Valid) (hb : b.Valid) :
    (∀ {σ : Type} (k : σ → Nat → σ) (s : σ), a.foldWords k s = a.words.foldl k s) ∧
    (a.words = b.words ↔ a.sameShape b = true) := by
  obtain ⟨types, o, ho⟩ := ha.outline?
  obtain ⟨types', o', ho'⟩ := hb.outline?
  constructor
  · intro σ k s
    rw [foldWords_eq k ho, words_eq ho]
  · rw [words_eq ho, words_eq ho', sameShape_iff_outline?, ho, ho']
    constructor
    · intro h
      obtain ⟨rfl, rfl⟩ := shapeWords_inj h
      exact ⟨_, rfl, rfl⟩
    · rintro ⟨_, h, h'⟩
      cases h
      cases h'
      rfl

/-- The words of two arenas that share no layout, nor the values of constants. -/
theorem words_eq_iff_sameShape_rebinding : rebinding.Valid ∧ rebindingSpread.Valid ∧
    rebinding.words = rebindingSpread.words ∧ rebinding.sameShape rebindingSpread = true := by
  have ha : rebinding.Valid := sameShape_self_iff.mp (by decide)
  have hb : rebindingSpread.Valid := sameShape_self_iff.mp (by decide)
  have hwords : rebinding.words = rebindingSpread.words := by decide
  exact ⟨ha, hb, hwords, (words_eq_iff_sameShape ha hb).2.mp hwords⟩

end Lambda

end Stencil
