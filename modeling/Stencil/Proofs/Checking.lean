import Stencil.Proofs.Lowering

/-!
# What lowering checks

`Form.check` makes the checks of lowering on a form, in the order in which lowering
makes them, and builds no code. Lowering a tree is this check of its form followed
by emission (`Tree.lower_verdict`): the code is settled by the form alone, so all
that can differ is whether there is any, and for what cause there is none. Ids come
in only where a fault is reported, as the node that it was found at.

So two expressions are refused for one cause as soon as their forms are, however
their arenas are laid out (`Lambda.lower_verdict`).
-/

namespace Stencil

/-- The condition holds, or the cause is reported. -/
def require (p : Prop) [Decidable p] (cause : CompileCause) : Except CompileCause Unit :=
  if p then .ok () else .error cause

theorem require_of {p : Prop} [Decidable p] (hp : p) (cause : CompileCause) :
    require p cause = .ok () :=
  if_pos hp

/-- Where an element type is given, an item has it. -/
def requireItem (elem : Option Ty) (found : Ty) : Except CompileCause Unit :=
  match elem with
  | some expected => require (found = expected) (.listElement expected found)
  | none => .ok ()

namespace Form

mutual

/-- The first fault of a form, if it has one. -/
def check (params : List Ty) (scope : List (Nat × Ty)) : Form Value → Except CompileCause Unit
  | const t v => require (v.ty = t) (.constTypeMismatch t v.ty)
  | param t i =>
    match params[i]? with
    | none => .error (.unboundParam i params.length)
    | some declared => require (declared = t) (.paramTypeMismatch i declared t)
  | localVar t slot =>
    match slotType scope slot with
    | none => .error (.unboundLocal slot)
    | some found => require (found = t) (.typeMismatch t found)
  | unary t op x => do
    x.check params scope
    require (op.accepts x.ty = true) (.invalidUnaryOperand op x.ty)
    require (op.resultType x.ty = t) (.typeMismatch t (op.resultType x.ty))
  | binary t op l r => do
    l.check params scope
    r.check params scope
    require (op.accepts l.ty r.ty = true) (.invalidOperands op l.ty r.ty)
    require (op.resultType l.ty = t) (.typeMismatch t (op.resultType l.ty))
  | ite t c x y => do
    c.check params scope
    x.check params scope
    y.check params scope
    require (c.ty = .bool) (.nonBoolCondition c.ty)
    require (x.ty = y.ty) (.branchMismatch x.ty y.ty)
    require (x.ty = t) (.typeMismatch t x.ty)
  | letIn t slot i b => do
    i.check params scope
    b.check params ((slot, i.ty) :: scope)
    require (b.ty = t) (.typeMismatch t b.ty)
  | list t xs =>
    match t.elem? with
    | none => .error (.notAList t)
    | some elem => checkAll params scope (some elem) xs
  | index t r i => do
    r.check params scope
    i.check params scope
    match r.ty.elem? with
    | none => .error (.notAList r.ty)
    | some elem => do
      require (i.ty = .int) (.nonIntIndex i.ty)
      require (elem = t) (.typeMismatch t elem)
  | call t f xs => do
    require (xs.length = f.arity) (.builtinArity f f.arity xs.length)
    checkAll params scope none xs
    match f.rejects? (xs.map ty) with
    | some found => .error (.builtinArgument f found)
    | none =>
      require (f.resultType (xs.map ty).head? = t)
        (.typeMismatch t (f.resultType (xs.map ty).head?))

/-- The first fault among the children of a list or a call. Where an element type is
given, each must have it. -/
def checkAll (params : List Ty) (scope : List (Nat × Ty)) (elem : Option Ty) :
    List (Form Value) → Except CompileCause Unit
  | [] => .ok ()
  | x :: xs => do
    x.check params scope
    requireItem elem x.ty
    checkAll params scope elem xs

end

end Form

/-! ### Lowering follows the check -/

/-- The lowering gives the result if the check passes, and otherwise fails for the
cause that the check reports. -/
def Verdict {α : Type} (checked : Except CompileCause Unit) (result : α)
    (lowered : Except CompileError α) : Prop :=
  match checked with
  | .ok _ => lowered = .ok result
  | .error cause => ∃ node, lowered = .error ⟨node, cause⟩

namespace Verdict

variable {α β : Type} {checked checked' : Except CompileCause Unit} {cause : CompileCause}

theorem bind {a : α} {b : β} {x : Except CompileError α} {k : α → Except CompileError β}
    (hx : Verdict checked a x) (hk : Verdict checked' b (k a)) :
    Verdict (checked >>= fun _ => checked') b (x >>= k) := by
  cases checked with
  | ok _ =>
    have hok : x = .ok a := hx
    rw [hok]
    exact hk
  | error cause =>
    obtain ⟨node, rfl⟩ := hx
    exact ⟨node, rfl⟩

/-- What is done with the result and cannot fail. -/
theorem andThen {a : α} {b : β} {x : Except CompileError α} {k : α → Except CompileError β}
    (hx : Verdict checked a x) (hk : k a = .ok b) : Verdict checked b (x >>= k) := by
  have hsame : (checked >>= fun _ => Except.ok ()) = checked := by
    cases checked <;> rfl
  have h := hx.bind (show Verdict (.ok ()) b (k a) from hk)
  rwa [hsame] at h

/-- A fault found at the node itself. -/
theorem fail (site : Site) (cause : CompileCause) (result : α) :
    Verdict (.error cause) result (site.fail cause) :=
  ⟨site.id, rfl⟩

/-- A condition that the node makes before it goes on. -/
theorem guard {p : Prop} [Decidable p] {site : Site} {result : α} {x : Except CompileError α}
    (h : Verdict checked result x) :
    Verdict (require p cause >>= fun _ => checked) result (if p then x else site.fail cause) := by
  unfold require
  by_cases hp : p
  · rw [if_pos hp, if_pos hp]
    exact h
  · rw [if_neg hp, if_neg hp]
    exact fail site cause result

/-- The same, with the failure as the first branch. -/
theorem guard_not {p : Prop} [Decidable p] {site : Site} {result : α} {x : Except CompileError α}
    (h : Verdict checked result x) :
    Verdict (require p cause >>= fun _ => checked) result (if ¬ p then site.fail cause else x) := by
  rw [ite_not]
  exact h.guard

/-- The last condition: a node produces the type that it records. -/
theorem produce (site : Site) (code : Code) (t : Ty) (cells : Nat) :
    Verdict (require (t = site.ty) (.typeMismatch site.ty t)) ⟨code, site.ty, cells⟩
      (site.produce code t cells) := by
  unfold require Site.produce
  by_cases ht : t = site.ty
  · rw [if_pos ht, if_pos ht, ht]
    exact rfl
  · rw [if_neg ht, if_neg ht]
    exact fail site _ _

theorem item (site : Site) (elem : Option Ty) (found : Ty) :
    Verdict (requireItem elem found) () (site.checkItem elem found) := by
  cases elem with
  | none => exact rfl
  | some expected =>
    show Verdict (require _ _) () (if found = expected then _ else _)
    unfold require
    by_cases h : found = expected
    · rw [if_pos h, if_pos h]
      exact rfl
    · rw [if_neg h, if_neg h]
      exact fail site _ _

end Verdict

theorem Ty.eq_list_of_elem? {t elem : Ty} (h : t.elem? = some elem) : t = .list elem := by
  cases t <;> cases h
  rfl

namespace Tree

variable {c : Convention}

mutual

/-- Lowering a tree is checking its form and emitting the code of the form. -/
theorem lower_verdict : (t : Tree) → {f : Form Value} → t.form? = some f → (owner : NodeId) →
    (scope : List Binding) → (n : Nat) →
    Verdict (f.check c.params.toList (slotTypes scope)) ⟨f.emit c scope n, f.ty, n + f.lets⟩
      (t.lower c owner scope n)
  | dangling _, _, h, _, _, _ | raggedList _, _, h, _, _, _ | raggedCall _ _, _, h, _, _, _ => by
    cases h
  | const site v, _, h, _, _, n => by
    cases h
    unfold Form.check lower Site.lowerConst require
    by_cases hv : v.ty = site.ty
    · have hhas : v.hasType site.ty = true := decide_eq_true hv
      rw [if_pos hv, if_pos hhas]
      exact if_pos rfl
    · have hhas : ¬ v.hasType site.ty = true := fun h => hv (of_decide_eq_true h)
      rw [if_neg hv, if_neg hhas]
      exact .fail site _ _
  | param site i, _, h, _, _, n => by
    cases h
    unfold Form.check lower Site.lowerParam require
    rw [Array.getElem?_toList, Array.length_toList]
    cases c.params[i]? with
    | none => exact .fail site _ _
    | some declared =>
      by_cases hd : declared = site.ty
      · subst hd
        simp only [if_pos]
        exact if_pos rfl
      · simp only [if_neg hd]
        exact .fail site _ _
  | localVar site slot, _, h, _, scope, n => by
    cases h
    unfold Form.check lower Site.lowerLocal Form.emit
    rw [slotType_slotTypes]
    cases scope.find? fun b => b.slot = slot with
    | none => exact .fail site _ _
    | some b => exact .produce site _ _ _
  | unary site op x, _, h, _, scope, n => by
    simp only [form?, Option.bind_eq_bind, Option.bind_eq_some_iff] at h
    obtain ⟨f, hx, h⟩ := h
    cases h
    refine (lower_verdict x hx site.id scope n).bind ?_
    exact .guard (.produce site _ _ _)
  | binary site op l r, _, h, _, scope, n => by
    simp only [form?, Option.bind_eq_bind, Option.bind_eq_some_iff] at h
    obtain ⟨f, hl, g, hr, h⟩ := h
    cases h
    refine (lower_verdict l hl site.id scope n).bind ?_
    refine (lower_verdict r hr site.id scope (n + f.lets)).bind ?_
    rw [Form.lets, ← Nat.add_assoc]
    exact .guard (.produce site _ _ _)
  | ite site b x y, _, h, _, scope, n => by
    simp only [form?, Option.bind_eq_bind, Option.bind_eq_some_iff] at h
    obtain ⟨f, hb, g, hx, k, hy, h⟩ := h
    cases h
    refine (lower_verdict b hb site.id scope n).bind ?_
    refine (lower_verdict x hx site.id scope (n + f.lets)).bind ?_
    refine (lower_verdict y hy site.id scope (n + f.lets + g.lets)).bind ?_
    rw [Form.lets, ← Nat.add_assoc, ← Nat.add_assoc]
    exact .guard_not (.guard_not (.produce site _ _ _))
  | letIn site slot i b, _, h, _, scope, n => by
    simp only [form?, Option.bind_eq_bind, Option.bind_eq_some_iff] at h
    obtain ⟨f, hi, g, hb, h⟩ := h
    cases h
    refine (lower_verdict i hi site.id scope n).bind ?_
    -- the body sees the slot with the cell that comes after those of the initialiser
    refine (lower_verdict b hb site.id (⟨slot, n + f.lets, f.ty⟩ :: scope) (n + f.lets + 1)).bind ?_
    rw [Form.lets, ← Nat.add_assoc, ← Nat.add_assoc]
    exact .produce site _ _ _
  | list site xs, _, h, _, scope, n => by
    simp only [form?, Option.bind_eq_bind, Option.bind_eq_some_iff] at h
    obtain ⟨fs, hxs, h⟩ := h
    cases h
    unfold Form.check lower Form.emit
    cases helem : site.ty.elem? with
    | none => exact .fail site _ _
    | some elem =>
      refine (lowerAll_verdict xs hxs site scope (some elem) n).andThen ?_
      -- a list literal of an element type always has the list type
      rw [← Ty.eq_list_of_elem? helem]
      exact if_pos rfl
  | index site r i, _, h, _, scope, n => by
    simp only [form?, Option.bind_eq_bind, Option.bind_eq_some_iff] at h
    obtain ⟨f, hr, g, hi, h⟩ := h
    cases h
    refine (lower_verdict r hr site.id scope n).bind ?_
    refine (lower_verdict i hi site.id scope (n + f.lets)).bind ?_
    rw [Form.lets, ← Nat.add_assoc]
    show Verdict (match f.ty.elem? with | none => _ | some elem => _) _
      (match f.ty.elem? with | none => _ | some elem => _)
    cases f.ty.elem? with
    | none => exact .fail site _ _
    | some elem => exact .guard (.produce site _ _ _)
  | call site b xs, _, h, _, scope, n => by
    simp only [form?, Option.bind_eq_bind, Option.bind_eq_some_iff] at h
    obtain ⟨fs, hxs, h⟩ := h
    cases h
    unfold Form.check lower
    rw [length_of_formAll? hxs]
    refine .guard_not ((lowerAll_verdict xs hxs site scope none n).bind ?_)
    show Verdict (match b.rejects? (fs.map Form.ty) with | some found => _ | none => _) _
      (match b.rejects? (fs.map Form.ty) with | some found => _ | none => _)
    cases b.rejects? (fs.map Form.ty) with
    | some found => exact .fail site _ _
    | none => exact .produce site _ _ _

theorem lowerAll_verdict : (ts : List Tree) → {fs : List (Form Value)} → formAll? ts = some fs →
    (site : Site) → (scope : List Binding) → (elem : Option Ty) → (n : Nat) →
    Verdict (Form.checkAll c.params.toList (slotTypes scope) elem fs)
      (Form.emitAll c scope fs n, fs.map Form.ty, n + Form.letsAll fs)
      (lowerAll c site scope elem ts n)
  | [], _, h, _, _, _, _ => by
    cases h
    exact rfl
  | x :: xs, _, h, site, scope, elem, n => by
    simp only [formAll?, Option.bind_eq_bind, Option.bind_eq_some_iff] at h
    obtain ⟨f, hx, fs, hxs, h⟩ := h
    cases h
    refine (lower_verdict x hx site.id scope n).bind ?_
    refine (Verdict.item site elem f.ty).bind ?_
    refine (lowerAll_verdict xs hxs site scope elem (n + f.lets)).andThen ?_
    rw [Form.letsAll, ← Nat.add_assoc]
    rfl

end

end Tree

/-- The executable form of a form that passes the check. -/
def Form.artifact (f : Form Value) (c : Convention) : Artifact where
  paramTypes := c.paramTypes
  valueCount := c.valueCount
  returnType := f.ty
  cells := f.lets
  code := f.emit c [] 0

/-- What is lowered has a well-typed form, and the artifact is the one of the form. -/
theorem Lambda.lower_ok {e : Lambda} {declared : Nat} {art : Artifact}
    (h : e.lower declared = .ok art) :
    declared ≤ e.arity ∧ ∃ f, e.tree.form? = some f ∧ f.WellTyped e.paramTypes [] ∧
      art = f.artifact ⟨e.paramTypes.toArray, declared⟩ := by
  rw [lower] at h
  by_cases hle : e.arity < declared
  · rw [if_pos hle] at h
    cases h
  rw [if_neg hle] at h
  obtain ⟨low, hlow, h⟩ := bind_eq_ok h
  obtain ⟨f, hform, htyped, rfl⟩ := Tree.lower_ok _ hlow
  cases h
  rw [Nat.zero_add]
  exact ⟨Nat.not_lt.mp hle, f, hform, htyped, rfl⟩

/-- Whether an expression can be lowered, to what and why not, depends on its form
and on the types of its parameters. -/
theorem Lambda.lower_verdict {e : Lambda} {f : Form Value} (hform : e.tree.form? = some f)
    {declared : Nat} (hle : declared ≤ e.arity) :
    Verdict (f.check e.paramTypes []) (f.artifact ⟨e.paramTypes.toArray, declared⟩)
      (e.lower declared) := by
  rw [lower, if_neg (Nat.not_lt.mpr hle)]
  have htree := Tree.lower_verdict (c := ⟨e.paramTypes.toArray, declared⟩) e.tree hform e.root [] 0
  rw [Nat.zero_add] at htree
  exact htree.andThen rfl

theorem Lambda.exists_lower_iff {e : Lambda} {f : Form Value} (hform : e.tree.form? = some f)
    {declared : Nat} (hle : declared ≤ e.arity) :
    (∃ art, e.lower declared = .ok art) ↔ f.check e.paramTypes [] = .ok () := by
  have hverdict := lower_verdict hform hle
  cases hcheck : f.check e.paramTypes [] with
  | ok _ =>
    rw [hcheck] at hverdict
    exact iff_of_true ⟨_, hverdict⟩ rfl
  | error cause =>
    rw [hcheck] at hverdict
    obtain ⟨node, hnode⟩ := hverdict
    simp [hnode]

theorem Lambda.check_of_lower_error {e : Lambda} {f : Form Value} (hform : e.tree.form? = some f)
    {declared : Nat} (hle : declared ≤ e.arity) {fault : CompileError}
    (h : e.lower declared = .error fault) : f.check e.paramTypes [] = .error fault.cause := by
  have hverdict := lower_verdict hform hle
  cases hcheck : f.check e.paramTypes [] with
  | ok _ =>
    rw [hcheck] at hverdict
    cases h.symm.trans hverdict
  | error cause =>
    rw [hcheck] at hverdict
    obtain ⟨node, hnode⟩ := hverdict
    cases h.symm.trans hnode
    rfl

end Stencil
