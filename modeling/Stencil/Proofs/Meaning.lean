import Stencil.Proofs.Skeleton
import Stencil.Proofs.Depth

/-!
# The meaning of a form

`Form.eval` evaluates a form, with no arena and no bound on the nesting. How a
binary operator goes on once its left operand is known is left open: the
interpreter asks the operator (`Combine.asking`), lowered code hands a left
operand that is no boolean on (`Combine.passing`).

The interpreter gives a node the value of its form (`Arena.eval_eq`), since a
form is less deep than the id of its node. As there is nothing to run out of and
nothing to run into, a form ends with a value or an error of the language
(`Form.eval_settles`). And taking the constants out of a form does not change its
value, if they are put behind the arguments (`Form.eval_hole`).
-/

namespace Stencil

/-- How a binary operator goes on from the value of its left operand, given what
the right operand evaluates to. -/
abbrev Combine := BinaryOp → Value → Except Stop Value → Except Stop Value

namespace Combine

/-- The operator is asked unless the left operand decides. -/
def asking : Combine := fun op l r =>
  if op.decides l then .ok l
  else do
    let r ← r
    Stop.lift (op.apply l r)

/-- A logical operator hands on its left operand unless that leaves the decision
to the right one. -/
def passing : Combine
  | .and, l, r => if l = .bool true then r else .ok l
  | .or, l, r => if l = .bool false then r else .ok l
  | op, l, r => do
    let r ← r
    Stop.lift (op.apply l r)

end Combine

namespace Form

variable (k : Combine) (args : Array Value)

mutual

/-- The value of a form. -/
def eval (scope : List (Nat × Value)) : Form Value → Except Stop Value
  | const _ v => .ok v
  | param _ i => definedOr ("#" ++ toString i) args[i]?
  | localVar _ slot => definedOr ("l" ++ toString slot) (lookupSlot scope slot)
  | unary _ op x => do
    let x ← x.eval scope
    Stop.lift (op.apply x)
  | binary _ op l r => do
    let l ← l.eval scope
    k op l (r.eval scope)
  | ite _ c x y => do
    match ← c.eval scope with
    | .bool true => x.eval scope
    | .bool false => y.eval scope
    | other => .error (.error (.typeMismatch .bool other.ty))
  | letIn _ slot i b => do
    let v ← i.eval scope
    b.eval ((slot, v) :: scope)
  | list t xs =>
    match t.elem? with
    | none => .error (.error (.typeMismatch (.list t) t))
    | some elem => do return .list elem (← evalAll scope xs)
  | index _ r i => do
    let r ← r.eval scope
    let i ← i.eval scope
    Stop.lift (r.index i)
  | call _ f xs => do
    let vs ← evalAll scope xs
    Stop.lift (f.apply vs)

/-- The values of several forms, up to the first that has none. -/
def evalAll (scope : List (Nat × Value)) : List (Form Value) → Except Stop (List Value)
  | [] => .ok []
  | x :: xs => do
    let v ← x.eval scope
    let vs ← evalAll scope xs
    return v :: vs

end

end Form

/-- The computation ends with a result or with an error of the language. -/
def Settles {α : Type} (r : Except Stop α) : Prop := ∃ s : Except EvalError α, r = Stop.lift s

namespace Settles

variable {α β : Type}

theorem ok (a : α) : Settles (.ok a) := ⟨.ok a, rfl⟩

theorem error (cause : EvalError) : Settles (.error (.error cause) : Except Stop α) :=
  ⟨.error cause, rfl⟩

theorem lift (r : Except EvalError α) : Settles (Stop.lift r) := ⟨r, rfl⟩

theorem bind {r : Except Stop α} {k : α → Except Stop β} (hr : Settles r)
    (hk : ∀ a, Settles (k a)) : Settles (r >>= k) := by
  obtain ⟨s, rfl⟩ := hr
  cases s with
  | ok a => exact hk a
  | error cause => exact error cause

theorem definedOr (name : String) (v : Option Value) : Settles (definedOr name v) := by
  cases v with
  | some v => exact ok v
  | none => exact error _

theorem ne_unfinished {r : Except Stop α} (hr : Settles r) : r ≠ .error .unfinished := by
  obtain ⟨s, rfl⟩ := hr
  cases s <;> nofun

end Settles

namespace Combine

theorem settles_asking (op : BinaryOp) (v : Value) {w : Except Stop Value} (hw : Settles w) :
    Settles (asking op v w) := by
  unfold asking
  split
  · exact .ok v
  · exact hw.bind fun u => .lift _

theorem settles_passing (op : BinaryOp) (v : Value) {w : Except Stop Value} (hw : Settles w) :
    Settles (passing op v w) := by
  unfold passing
  split
  · split
    · exact hw
    · exact .ok v
  · split
    · exact hw
    · exact .ok v
  · exact hw.bind fun u => .lift _

end Combine

namespace Form

variable {k : Combine} {args : Array Value}

mutual

/-- A form ends within the language, well typed or not. -/
theorem eval_settles (hk : ∀ op v {w}, Settles w → Settles (k op v w)) : (f : Form Value) →
    (scope : List (Nat × Value)) → Settles (f.eval k args scope)
  | const _ v, _ => .ok v
  | param _ _, _ | localVar _ _, _ => .definedOr _ _
  | unary _ op x, scope => (eval_settles hk x scope).bind fun _ => .lift _
  | binary _ op l r, scope =>
    (eval_settles hk l scope).bind fun v => hk op v (eval_settles hk r scope)
  | ite _ c x y, scope => by
    refine (eval_settles hk c scope).bind fun v => ?_
    split
    · exact eval_settles hk x scope
    · exact eval_settles hk y scope
    · exact .error _
  | letIn _ slot i b, scope =>
    (eval_settles hk i scope).bind fun v => eval_settles hk b ((slot, v) :: scope)
  | list t xs, scope => by
    unfold eval
    split
    · exact .error _
    · exact (evalAll_settles hk xs scope).bind fun _ => .ok _
  | index _ r i, scope =>
    (eval_settles hk r scope).bind fun _ => (eval_settles hk i scope).bind fun _ => .lift _
  | call _ _ xs, scope => (evalAll_settles hk xs scope).bind fun _ => .lift _

theorem evalAll_settles (hk : ∀ op v {w}, Settles w → Settles (k op v w)) :
    (fs : List (Form Value)) → (scope : List (Nat × Value)) → Settles (evalAll k args scope fs)
  | [], _ => .ok []
  | x :: xs, scope =>
    (eval_settles hk x scope).bind fun _ => (evalAll_settles hk xs scope).bind fun _ => .ok _

end

end Form

namespace Arena

variable {a : Arena} {args : Array Value}

theorem mapM_eval_eq {depth id : Nat} {scope : List (Nat × Value)}
    (hchild : ∀ c f, (if c < id then a.form? c else none) = some f →
      a.eval args depth scope c = f.eval .asking args scope)
    {ids : List NodeId} {fs : List (Form Value)}
    (h : ids.mapM (fun c => if c < id then a.form? c else none) = some fs) :
    ids.mapM (a.eval args depth scope) = Form.evalAll .asking args scope fs := by
  induction ids generalizing fs with
  | nil =>
    cases h
    rfl
  | cons c ids ih =>
    simp only [List.mapM_cons, Option.bind_eq_bind, Option.bind_eq_some_iff] at h
    obtain ⟨f, hf, fs, hfs, h⟩ := h
    cases h
    rw [List.mapM_cons, hchild c f hf, ih hfs]
    rfl

/-- The interpreter gives a node the value of its form. -/
theorem eval_eq {depth id : Nat} {scope : List (Nat × Value)} {f : Form Value}
    (h : a.form? id = some f) (hdepth : id < depth) :
    a.eval args depth scope id = f.eval .asking args scope := by
  induction depth generalizing id scope f with
  | zero => exact absurd hdepth (Nat.not_lt_zero id)
  | succ depth ih =>
    -- children come before their parent, so the bound suffices for them
    have hchild : ∀ scope c f, (if c < id then a.form? c else none) = some f →
        a.eval args depth scope c = f.eval .asking args scope := by
      intro scope c f hc
      by_cases hlt : c < id
      · rw [if_pos hlt] at hc
        exact ih hc (by omega)
      · rw [if_neg hlt] at hc
        cases hc
    rw [form?_eq, Option.bind_eq_some_iff] at h
    obtain ⟨⟨kind, ty⟩, hnode, h⟩ := h
    rw [eval, hnode]
    cases kind <;> simp only [compose, Option.bind_eq_bind, Option.bind_eq_some_iff] at h
    case const | param | localVar =>
      cases h
      rfl
    case unary =>
      obtain ⟨x, hx, h⟩ := h
      cases h
      simp only [hchild _ _ _ hx, Form.eval]
    case binary =>
      obtain ⟨x, hx, y, hy, h⟩ := h
      cases h
      simp only [hchild _ _ _ hx, hchild _ _ _ hy, Form.eval]
      rfl
    case index | letIn =>
      obtain ⟨x, hx, y, hy, h⟩ := h
      cases h
      simp only [hchild _ _ _ hx, hchild _ _ _ hy, Form.eval]
    case ite =>
      obtain ⟨x, hx, y, hy, z, hz, h⟩ := h
      cases h
      simp only [hchild _ _ _ hx, hchild _ _ _ hy, hchild _ _ _ hz]
      rfl
    case list =>
      obtain ⟨ids, hids, fs, hfs, h⟩ := h
      cases h
      simp only [hids, mapM_eval_eq (hchild scope) hfs]
      rfl
    case call =>
      obtain ⟨ids, hids, fs, hfs, h⟩ := h
      cases h
      simp only [hids, mapM_eval_eq (hchild scope) hfs, Form.eval]

end Arena

theorem prefix_drop_of_append {α : Type} {xs ys l : List α} {n : Nat} (h : xs ++ ys <+: l.drop n) :
    xs <+: l.drop n ∧ ys <+: l.drop (n + xs.length) := by
  obtain ⟨rest, hrest⟩ := h
  refine ⟨⟨ys ++ rest, by rw [← List.append_assoc, hrest]⟩, ⟨rest, ?_⟩⟩
  rw [← List.drop_drop, ← hrest, List.append_assoc, List.drop_left]

namespace Form

variable (k : Combine) {args env : Array Value} {arity : Nat}

mutual

/-- A form with holes has the value of the form, on arguments that hold its
constants at the holes. -/
theorem eval_hole (hargs : ∀ i, i < arity → env[i]? = args[i]?) : (f : Form Value) →
    {slots : List Nat} → (scope : List (Nat × Value)) → (next : Nat) → f.Proper arity slots →
    f.consts <+: env.toList.drop next → (f.hole next).eval k env scope = f.eval k args scope
  | const t v, _, scope, next, _, hc => by
    obtain ⟨rest, hrest⟩ := hc
    have hget : env[next]? = some v := by
      rw [← Array.getElem?_toList, ← Nat.add_zero next, ← List.getElem?_drop, ← hrest]
      rfl
    rw [hole, eval, eval, hget]
    rfl
  | param t i, _, scope, next, hf, _ => by
    rw [hole, eval, eval, hargs i hf]
  | localVar _ _, _, _, _, _, _ => rfl
  | unary t op x, _, scope, next, hf, hc => by
    rw [hole, eval, eval, eval_hole hargs x scope next hf hc]
  | binary t op l r, _, scope, next, hf, hc => by
    obtain ⟨hl, hr⟩ := prefix_drop_of_append hc
    rw [hole, eval, eval, eval_hole hargs l scope next hf.1 hl, eval_hole hargs r scope _ hf.2 hr]
  | ite t c x y, _, scope, next, hf, hc => by
    obtain ⟨hb, hxy⟩ := prefix_drop_of_append hc
    obtain ⟨hx, hy⟩ := prefix_drop_of_append hxy
    rw [hole, eval, eval, eval_hole hargs c scope next hf.1 hb,
      eval_hole hargs x scope _ hf.2.1 hx, eval_hole hargs y scope _ hf.2.2 hy]
  | letIn t slot i b, _, scope, next, hf, hc => by
    obtain ⟨hi, hb⟩ := prefix_drop_of_append hc
    rw [hole, eval, eval, eval_hole hargs i scope next hf.1 hi]
    congr 1
    funext v
    exact eval_hole hargs b ((slot, v) :: scope) _ hf.2 hb
  | list t xs, _, scope, next, hf, hc => by
    rw [hole, eval, eval, evalAll_holeAll hargs xs scope next hf hc]
  | index t r i, _, scope, next, hf, hc => by
    obtain ⟨hr, hi⟩ := prefix_drop_of_append hc
    rw [hole, eval, eval, eval_hole hargs r scope next hf.1 hr, eval_hole hargs i scope _ hf.2 hi]
  | call t b xs, _, scope, next, hf, hc => by
    rw [hole, eval, eval, evalAll_holeAll hargs xs scope next hf hc]

theorem evalAll_holeAll (hargs : ∀ i, i < arity → env[i]? = args[i]?) :
    (fs : List (Form Value)) → {slots : List Nat} → (scope : List (Nat × Value)) →
    (next : Nat) → AllProper arity slots fs → constsAll fs <+: env.toList.drop next →
    evalAll k env scope (holeAll next fs) = evalAll k args scope fs
  | [], _, _, _, _, _ => rfl
  | x :: xs, _, scope, next, hf, hc => by
    obtain ⟨hx, hxs⟩ := prefix_drop_of_append hc
    rw [holeAll, evalAll, evalAll, eval_hole hargs x scope next hf.1 hx,
      evalAll_holeAll hargs xs scope _ hf.2 hxs]

end

/-- The constants of a form are handed over behind the arguments. -/
theorem eval_hole_append {f : Form Value} (hf : f.Proper arity []) {own : List Value}
    (hlen : own.length = arity) :
    (f.hole arity).eval k (own ++ f.consts).toArray [] = f.eval k own.toArray [] := by
  have hown : ∀ i, i < arity → (own ++ f.consts).toArray[i]? = own.toArray[i]? := by
    intro i hi
    rw [List.getElem?_toArray, List.getElem?_toArray, List.getElem?_append_left (by omega)]
  have hholes : f.consts <+: (own ++ f.consts).toArray.toList.drop arity :=
    ⟨[], by rw [List.append_nil, List.drop_left' hlen]⟩
  exact eval_hole k hown f [] arity hf hholes

end Form

namespace Lambda

/-- The interpreter gives a well-formed expression the value of its form, once
the arguments are checked. -/
theorem interpret_eq {e : Lambda} {f : Form Value} (h : e.HasForm f) (args : List Value) :
    e.interpret args = (Stop.lift (checkArgs e.paramTypes args)).bind fun _ =>
      f.eval .asking args.toArray [] := by
  have hform : e.arena.form? e.root = some f := h.form
  have hroot := Arena.form?_lt hform
  have heval : e.arena.eval args.toArray (e.arena.size + 1) [] e.root
      = f.eval .asking args.toArray [] := Arena.eval_eq hform (Nat.lt_succ_of_lt hroot)
  have hends : f.eval .asking args.toArray [] ≠ .error .unfinished :=
    (f.eval_settles Combine.settles_asking []).ne_unfinished
  cases hcheck : checkArgs e.paramTypes args with
  | error cause =>
    rw [interpret, hcheck]
    rfl
  | ok _ => exact (interpret_eq_iff hcheck hends).mpr ⟨_, heval⟩

end Lambda

end Stencil
