import Stencil.Tree

/-!
# Shapes of expressions

Two expressions have the same shape if they differ only in the values of their constants, in the
names of their parameters and in how their arenas are laid out. `Lambda.sameShape` decides it by
walking both trees at once. An expression with a reference that cannot be followed has no shape and
is not even like itself.

`Lambda.foldWords` runs through the words that write a shape down: the parameter count and types,
then each node in pre-order as its kind, its type, its index, slot or operator, and the number of
its children. `Lambda.fingerprint` mixes these words into 64 bits.
-/

namespace Stencil

namespace Tree

mutual

/-- Same tree but for ids and constant values, and nothing dangling in it. -/
def sameShape : Tree → Tree → Bool
  | const s _, const t _ => decide (s.ty = t.ty)
  | param s i, param t j => decide (s.ty = t.ty) && decide (i = j)
  | localVar s i, localVar t j => decide (s.ty = t.ty) && decide (i = j)
  | unary s op x, unary t oq y => decide (s.ty = t.ty) && decide (op = oq) && x.sameShape y
  | binary s op l r, binary t oq l' r' =>
    decide (s.ty = t.ty) && decide (op = oq) && l.sameShape l' && r.sameShape r'
  | ite s c x y, ite t c' x' y' =>
    decide (s.ty = t.ty) && c.sameShape c' && x.sameShape x' && y.sameShape y'
  | letIn s i x y, letIn t j x' y' =>
    decide (s.ty = t.ty) && decide (i = j) && x.sameShape x' && y.sameShape y'
  | list s xs, list t ys => decide (s.ty = t.ty) && sameShapes xs ys
  | index s x y, index t x' y' => decide (s.ty = t.ty) && x.sameShape x' && y.sameShape y'
  | call s f xs, call t g ys => decide (s.ty = t.ty) && decide (f = g) && sameShapes xs ys
  | _, _ => false

/-- Trees of the same shape at every place, and as many of them. -/
def sameShapes : List Tree → List Tree → Bool
  | [], [] => true
  | x :: xs, y :: ys => x.sameShape y && sameShapes xs ys
  | _, _ => false

end

end Tree

/-- Same parameter types and trees of the same shape. -/
def Lambda.sameShape (a b : Lambda) : Bool :=
  decide (a.paramTypes = b.paramTypes) && a.tree.sameShape b.tree

section Words

variable {σ : Type} (f : σ → Nat → σ)

/-- The words of a type: one per list level, one for the scalar inside. -/
def Ty.foldWords : Ty → σ → σ
  | int, s => f s 0
  | float, s => f s 1
  | bool, s => f s 2
  | str, s => f s 3
  | unit, s => f s 4
  | list elem, s => elem.foldWords (f s 5)

/-- The word that stands for a reference that cannot be followed. -/
def danglingWord : Nat := 4294967295

/-- The kind and the type of a node. -/
def Site.foldHead (site : Site) (kind : Nat) (s : σ) : σ := site.ty.foldWords f (f s kind)

namespace Tree

mutual

/-- The words of a tree in pre-order. -/
def foldWords : Tree → σ → σ
  | dangling _, s => f s danglingWord
  | const site _, s => f (site.foldHead f 0 s) 0
  | param site i, s => f (f (site.foldHead f 1 s) i) 0
  | localVar site slot, s => f (f (site.foldHead f 2 s) slot) 0
  | unary site op x, s => x.foldWords (f (f (site.foldHead f 3 s) op.code) 1)
  | binary site op l r, s => r.foldWords (l.foldWords (f (f (site.foldHead f 4 s) op.code) 2))
  | ite site c t e, s => e.foldWords (t.foldWords (c.foldWords (f (site.foldHead f 5 s) 3)))
  | letIn site slot i b, s => b.foldWords (i.foldWords (f (f (site.foldHead f 6 s) slot) 2))
  | list site xs, s => foldWordsAll xs (f (site.foldHead f 7 s) xs.length)
  | index site r i, s => i.foldWords (r.foldWords (f (site.foldHead f 8 s) 2))
  | call site g xs, s => foldWordsAll xs (f (f (site.foldHead f 9 s) g.code) xs.length)
  | raggedList site, s => f (site.foldHead f 7 s) danglingWord
  | raggedCall site g, s => f (f (site.foldHead f 9 s) g.code) danglingWord

/-- The words of several trees, one after the other. -/
def foldWordsAll : List Tree → σ → σ
  | [], s => s
  | x :: xs, s => foldWordsAll xs (x.foldWords s)

end

end Tree

/-- The words of an expression: parameter count, parameter types, tree. -/
def Lambda.foldWords (e : Lambda) (s : σ) : σ :=
  e.tree.foldWords f (e.paramTypes.foldl (fun s t => t.foldWords f s) (f s e.arity))

end Words

namespace Lambda

/-- The words of an expression as a list. -/
def words (e : Lambda) : List Nat := (e.foldWords Array.push #[]).toList

/-- One word mixed into the state. -/
def mix (h : UInt64) (word : Nat) : UInt64 := (h + UInt64.ofNat word) * 0xf1357aea2e62a9c5

/-- The mixed words, turned left by 26 bits. -/
def fingerprint (e : Lambda) : UInt64 :=
  let h := e.foldWords mix 0
  (h <<< 26) ||| (h >>> 38)

end Lambda

end Stencil
