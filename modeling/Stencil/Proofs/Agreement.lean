import Stencil.Proofs.Outline
import Stencil.Proofs.Soundness

/-!
# Where code and interpreter agree

Lowered code and the interpreter differ in one thing, what a logical operator does
with an operand that is no boolean. The interpreter asks the operator, which refuses;
code hands the operand on. Types keep such operands away, but the items of a list are
held to no type, and one that is taken out of a list may be anything.

The evaluation `Form.Stumbles` if it comes to such an operand. Then the interpreter
fails (`Form.Stumbles.fails`). If it does not stumble, code comes to the same value or
error, whatever the lists hold (`Form.eval_asking_eq_passing_of_steady`). So a value of
the interpreter is always a value of the code, and a disagreement is always due to a
logical operator (`Lambda.call_eq_interpret_iff_steady`). An expression that has none
never stumbles, which leaves nothing to disagree on
(`Lambda.call_rotated_eq_interpret`).
-/

namespace Stencil

/-! ### Stumbling -/

namespace Form

/-- The evaluation comes to a logical operator with an operand that is no boolean. A
part counts only if it is evaluated: what is evaluated before it has a value, and the
conditions and the left operands on the way lead there. -/
inductive Stumbles (args : Array Value) : List (Nat × Value) → Form Value → Prop where
  | onLeft {scope t op l r v} : op.isLogical = true → l.eval .asking args scope = .ok v →
      v.ty ≠ .bool → Stumbles args scope (.binary t op l r)
  | onRight {scope t op l r v w} : op.isLogical = true → l.eval .asking args scope = .ok v →
      op.decides v = false → r.eval .asking args scope = .ok w → w.ty ≠ .bool →
      Stumbles args scope (.binary t op l r)
  | operand {scope t op x} : Stumbles args scope x → Stumbles args scope (.unary t op x)
  | left {scope t op l r} : Stumbles args scope l → Stumbles args scope (.binary t op l r)
  | right {scope t op l r v} : l.eval .asking args scope = .ok v → op.decides v = false →
      Stumbles args scope r → Stumbles args scope (.binary t op l r)
  | cond {scope t c x y} : Stumbles args scope c → Stumbles args scope (.ite t c x y)
  | thenForm {scope t c x y} : c.eval .asking args scope = .ok (.bool true) →
      Stumbles args scope x → Stumbles args scope (.ite t c x y)
  | elseForm {scope t c x y} : c.eval .asking args scope = .ok (.bool false) →
      Stumbles args scope y → Stumbles args scope (.ite t c x y)
  | init {scope t slot i b} : Stumbles args scope i → Stumbles args scope (.letIn t slot i b)
  | body {scope t slot i b v} : i.eval .asking args scope = .ok v →
      Stumbles args ((slot, v) :: scope) b → Stumbles args scope (.letIn t slot i b)
  | item {scope t elem before x after vs} : t.elem? = some elem →
      evalAll .asking args scope before = .ok vs → Stumbles args scope x →
      Stumbles args scope (.list t (before ++ x :: after))
  | receiver {scope t r i} : Stumbles args scope r → Stumbles args scope (.index t r i)
  | position {scope t r i v} : r.eval .asking args scope = .ok v → Stumbles args scope i →
      Stumbles args scope (.index t r i)
  | arg {scope t f before x after vs} : evalAll .asking args scope before = .ok vs →
      Stumbles args scope x → Stumbles args scope (.call t f (before ++ x :: after))

end Form

/-- A logical operator refuses an operand that is no boolean. -/
theorem BinaryOp.apply_logical {op : BinaryOp} (hop : op.isLogical = true) {v w : Value}
    (h : v.ty ≠ .bool ∨ w.ty ≠ .bool) : ∃ cause, op.apply v w = .error cause := by
  cases op with
  | and | or =>
    cases v with
    | bool b =>
      cases w with
      | bool c => rcases h with h | h <;> exact absurd rfl h
      | _ => exact ⟨_, rfl⟩
    | _ => cases w <;> exact ⟨_, rfl⟩
  | _ => cases hop

theorem BinaryOp.decides_eq_false {op : BinaryOp} {v : Value} (hv : v.ty ≠ .bool) :
    op.decides v = false := by
  cases v with
  | bool b => exact absurd rfl hv
  | _ => cases op <;> rfl

/-- If the left operand decides, the right one is left out both ways. -/
theorem Combine.asking_eq_passing_of_decides {op : BinaryOp} {v : Value} (h : op.decides v = true)
    (w w' : Except Stop Value) : asking op v w = passing op v w' := by
  rw [asking, if_pos h]
  cases op with
  | and =>
    cases v with
    | bool b =>
      cases b with
      | false => rfl
      | true => cases h
    | _ => cases h
  | or =>
    cases v with
    | bool b =>
      cases b with
      | false => cases h
      | true => rfl
    | _ => cases h
  | _ => cases h

/-- An operator that is asked ends with an error if one of its operands is no boolean,
or if the right one has no value. -/
theorem Combine.asking_fails {op : BinaryOp} (hop : op.isLogical = true) {v : Value}
    (hdecides : op.decides v = false) {w : Except Stop Value} (hw : Settles w)
    (h : ∀ u, w = .ok u → v.ty ≠ .bool ∨ u.ty ≠ .bool) :
    ∃ cause, asking op v w = .error (.error cause) := by
  obtain ⟨s, rfl⟩ := hw
  rw [asking, hdecides]
  cases s with
  | error cause => exact ⟨cause, rfl⟩
  | ok u =>
    obtain ⟨cause, hcause⟩ := BinaryOp.apply_logical hop (h u rfl)
    refine ⟨cause, ?_⟩
    show Stop.lift (op.apply v u) = _
    rw [hcause]
    rfl

namespace Form

variable {args : Array Value} {scope : List (Nat × Value)}

theorem evalAll_append_error {k : Combine} {before : List (Form Value)} {vs : List Value}
    (hbefore : evalAll k args scope before = .ok vs) {x : Form Value} {stop : Stop}
    (hx : x.eval k args scope = .error stop) (after : List (Form Value)) :
    evalAll k args scope (before ++ x :: after) = .error stop := by
  induction before generalizing vs with
  | nil =>
    rw [List.nil_append, evalAll, hx]
    rfl
  | cons y ys ih =>
    obtain ⟨v, hv, hrest⟩ := bind_eq_ok hbefore
    obtain ⟨ws, hws, -⟩ := bind_eq_ok hrest
    rw [List.cons_append, evalAll, hv, ih hws]
    rfl

/-- Where the evaluation stumbles, the interpreter fails. -/
theorem Stumbles.fails {f : Form Value} (h : f.Stumbles args scope) :
    ∃ cause, f.eval .asking args scope = .error (.error cause) := by
  have hsettles : ∀ (r : Form Value) scope, Settles (r.eval .asking args scope) := by
    intro r scope
    exact r.eval_settles Combine.settles_asking scope
  induction h with
  | @onLeft scope t op l r v hop hl hv =>
    obtain ⟨cause, hcause⟩ := Combine.asking_fails hop (BinaryOp.decides_eq_false hv)
      (hsettles r scope) fun _ _ => .inl hv
    refine ⟨cause, ?_⟩
    rw [eval, hl]
    exact hcause
  | @onRight scope t op l r v w hop hl hdecides hr hw =>
    have hright : ∀ u, r.eval .asking args scope = .ok u → v.ty ≠ .bool ∨ u.ty ≠ .bool := by
      intro u hu
      rw [← Except.ok.inj (hr.symm.trans hu)]
      exact .inr hw
    obtain ⟨cause, hcause⟩ := Combine.asking_fails hop hdecides (hsettles r scope) hright
    refine ⟨cause, ?_⟩
    rw [eval, hl]
    exact hcause
  -- an error of a part that is evaluated is the error of the whole
  | operand _ ih | left _ ih | cond _ ih | init _ ih | receiver _ ih =>
    obtain ⟨cause, hcause⟩ := ih
    refine ⟨cause, ?_⟩
    rw [eval, hcause]
    rfl
  | @right scope t op l r v hl hdecides _ ih =>
    obtain ⟨cause, hcause⟩ := ih
    refine ⟨cause, ?_⟩
    rw [eval, hl, hcause]
    show Combine.asking op v (.error (.error cause)) = _
    rw [Combine.asking, hdecides]
    rfl
  | thenForm hc _ ih | elseForm hc _ ih | body hc _ ih =>
    obtain ⟨cause, hcause⟩ := ih
    refine ⟨cause, ?_⟩
    rw [eval, hc]
    exact hcause
  | item ht hbefore _ ih =>
    obtain ⟨cause, hcause⟩ := ih
    refine ⟨cause, ?_⟩
    rw [eval, ht]
    simp only [evalAll_append_error hbefore hcause]
    rfl
  | position hr _ ih =>
    obtain ⟨cause, hcause⟩ := ih
    refine ⟨cause, ?_⟩
    rw [eval, hr, hcause]
    rfl
  | arg hbefore _ ih =>
    obtain ⟨cause, hcause⟩ := ih
    refine ⟨cause, ?_⟩
    rw [eval, evalAll_append_error hbefore hcause]
    rfl

mutual

/-- Where the evaluation does not stumble, it makes no difference how a logical
operator treats an operand that is no boolean. -/
theorem eval_asking_eq_passing_of_steady : (f : Form Value) → {scope : List (Nat × Value)} →
    ¬ f.Stumbles args scope → f.eval .asking args scope = f.eval .passing args scope
  | const _ _, _, _ | param _ _, _, _ | localVar _ _, _, _ => by
    rw [eval, eval]
  | unary t op x, _, h => by
    rw [eval, eval, eval_asking_eq_passing_of_steady x fun hx => h (.operand hx)]
  | binary t op l r, scope, h => by
    have hl := eval_asking_eq_passing_of_steady l fun hl => h (.left hl)
    rw [eval, eval, ← hl]
    cases hv : l.eval .asking args scope with
    | error stop => rfl
    | ok v =>
      show Combine.asking op v _ = Combine.passing op v _
      by_cases hdecides : op.decides v = true
      · exact Combine.asking_eq_passing_of_decides hdecides _ _
      · have hgo : op.decides v = false := Bool.eq_false_iff.mpr hdecides
        have hr := eval_asking_eq_passing_of_steady r fun hr => h (.right hv hgo hr)
        rw [← hr]
        refine Combine.asking_eq_passing_of_bool ?_ ?_
        · intro hop
          by_contra hbool
          exact h (.onLeft hop hv hbool)
        · intro hop _ w hw
          by_contra hbool
          exact h (.onRight hop hv hgo hw hbool)
  | ite t c x y, scope, h => by
    have hc := eval_asking_eq_passing_of_steady c fun hc => h (.cond hc)
    rw [eval, eval, ← hc]
    cases hv : c.eval .asking args scope with
    | error stop => rfl
    | ok v =>
      cases v with
      | bool b =>
        cases b with
        | true => exact eval_asking_eq_passing_of_steady x fun hx => h (.thenForm hv hx)
        | false => exact eval_asking_eq_passing_of_steady y fun hy => h (.elseForm hv hy)
      | _ => rfl
  | letIn t slot i b, scope, h => by
    have hi := eval_asking_eq_passing_of_steady i fun hi => h (.init hi)
    rw [eval, eval, ← hi]
    cases hv : i.eval .asking args scope with
    | error stop => rfl
    | ok v => exact eval_asking_eq_passing_of_steady b fun hb => h (.body hv hb)
  | list t xs, scope, h => by
    rw [eval, eval]
    cases ht : t.elem? with
    | none => rfl
    | some elem =>
      have hxs : evalAll .asking args scope xs = evalAll .passing args scope xs := by
        refine evalAll_asking_eq_passing_of_steady xs ?_
        rintro before x after vs rfl hbefore hx
        exact h (.item ht hbefore hx)
      simp only [hxs]
  | index t r i, scope, h => by
    have hr := eval_asking_eq_passing_of_steady r fun hr => h (.receiver hr)
    rw [eval, eval, ← hr]
    cases hv : r.eval .asking args scope with
    | error stop => rfl
    | ok v =>
      have hi := eval_asking_eq_passing_of_steady i fun hi => h (.position hv hi)
      rw [hi]
  | call t f xs, scope, h => by
    have hxs : evalAll .asking args scope xs = evalAll .passing args scope xs := by
      refine evalAll_asking_eq_passing_of_steady xs ?_
      rintro before x after vs rfl hbefore hx
      exact h (.arg hbefore hx)
    rw [eval, eval, hxs]

theorem evalAll_asking_eq_passing_of_steady : (fs : List (Form Value)) →
    {scope : List (Nat × Value)} →
    (∀ before x after vs, fs = before ++ x :: after → evalAll .asking args scope before = .ok vs →
      ¬ x.Stumbles args scope) →
    evalAll .asking args scope fs = evalAll .passing args scope fs
  | [], _, _ => rfl
  | x :: xs, scope, h => by
    have hx := eval_asking_eq_passing_of_steady x (h [] x xs [] rfl rfl)
    rw [evalAll, evalAll, ← hx]
    cases hv : x.eval .asking args scope with
    | error stop => rfl
    | ok v =>
      have hxs : evalAll .asking args scope xs = evalAll .passing args scope xs := by
        refine evalAll_asking_eq_passing_of_steady xs ?_
        rintro before y after vs rfl hbefore
        refine h (x :: before) y after (v :: vs) rfl ?_
        rw [evalAll, hv, hbefore]
        rfl
      rw [hxs]

end

end Form

/-! ### Operators that are reached -/

namespace Outline

mutual

/-- The labels of all nodes of an outline. -/
def labels : Outline → List Label
  | node label _ children => label :: labelsAll children

def labelsAll : List Outline → List Label
  | [] => []
  | x :: xs => x.labels ++ labelsAll xs

end

end Outline

namespace Arena

theorem exists_of_mem_labelsAll {child : NodeId → Option Outline} {ids : List NodeId}
    {os : List Outline} (h : ids.mapM child = some os) {label : Label}
    (hmem : label ∈ Outline.labelsAll os) :
    ∃ c ∈ ids, ∃ o, child c = some o ∧ label ∈ o.labels := by
  induction ids generalizing os with
  | nil =>
    cases h
    cases hmem
  | cons id ids ih =>
    simp only [List.mapM_cons, Option.bind_eq_bind, Option.bind_eq_some_iff] at h
    obtain ⟨o, ho, os, hos, h⟩ := h
    cases h
    rcases List.mem_append.mp hmem with hmem | hmem
    · exact ⟨id, List.mem_cons_self, o, ho, hmem⟩
    · obtain ⟨c, hc, hrest⟩ := ih hos hmem
      exact ⟨c, List.mem_cons_of_mem _ hc, hrest⟩

/-- Every label of an outline is that of a node which is reached. -/
theorem reaches_of_mem_labels {a : Arena} {id : NodeId} {o : Outline} (h : a.outline? id = some o)
    {label : Label} (hmem : label ∈ o.labels) :
    ∃ j node, a.Reaches id j ∧ a.get? j = some node ∧ node.kind.label = label := by
  induction id using Nat.strongRecOn generalizing o with
  | ind id ih =>
    obtain ⟨node, ids, os, hnode, hids, hos, rfl⟩ := exists_of_outline? h
    rcases List.mem_cons.mp hmem with hlabel | hmem
    · exact ⟨id, node, .refl id, hnode, hlabel.symm⟩
    · obtain ⟨c, hc, o, ho, hlabel⟩ := exists_of_mem_labelsAll hos hmem
      by_cases hlt : c < id
      · rw [if_pos hlt] at ho
        obtain ⟨j, found, hj, hfound⟩ := ih c hlt ho hlabel
        exact ⟨j, found, .step hnode hids hc hj, hfound⟩
      · rw [if_neg hlt] at ho
        cases ho

end Arena

namespace Form

variable {args : Array Value} {scope : List (Nat × Value)}

theorem mem_labelsAll_outlines {x : Form Value} {label : Label} (hmem : label ∈ x.outline.labels)
    (before after : List (Form Value)) :
    label ∈ Outline.labelsAll (outlines (before ++ x :: after)) := by
  induction before with
  | nil => exact List.mem_append_left _ hmem
  | cons y ys ih => exact List.mem_append_right _ ih

/-- Only a form with logical operators stumbles. -/
theorem Stumbles.exists_logical {f : Form Value} (h : f.Stumbles args scope) :
    ∃ op : BinaryOp, op.isLogical = true ∧ Label.binary op ∈ f.outline.labels := by
  induction h with
  | onLeft hop _ _ | onRight hop _ _ _ _ => exact ⟨_, hop, List.mem_cons_self⟩
  | operand _ ih | left _ ih | cond _ ih | init _ ih | receiver _ ih =>
    obtain ⟨op, hop, hmem⟩ := ih
    exact ⟨op, hop, List.mem_cons_of_mem _ (List.mem_append_left _ hmem)⟩
  | right _ _ _ ih | thenForm _ _ ih | body _ _ ih | position _ _ ih =>
    obtain ⟨op, hop, hmem⟩ := ih
    exact ⟨op, hop, List.mem_cons_of_mem _
      (List.mem_append_right _ (List.mem_append_left _ hmem))⟩
  | elseForm _ _ ih =>
    obtain ⟨op, hop, hmem⟩ := ih
    exact ⟨op, hop, List.mem_cons_of_mem _
      (List.mem_append_right _ (List.mem_append_right _ (List.mem_append_left _ hmem)))⟩
  | item _ _ _ ih | arg _ _ ih =>
    obtain ⟨op, hop, hmem⟩ := ih
    exact ⟨op, hop, List.mem_cons_of_mem _ (mem_labelsAll_outlines hmem _ _)⟩

end Form

/-- The node is an operator on booleans that may leave out its right operand. -/
def Kind.isLogical : Kind → Bool
  | binary op _ _ => op.isLogical
  | _ => false

/-! ### Calling and interpreting -/

theorem Artifact.Runs.hasForm {art : Artifact} {e : Lambda} {declared : Nat} {f : Form Value}
    (h : art.Runs e declared f) : e.HasForm f where
  form := h.form
  proper := by
    rw [← e.length_paramTypes]
    exact Form.WellTyped.proper f h.typed

/-- On arguments of the declared types, dealt out as the calling convention says, the
code evaluates the form. -/
theorem Artifact.Runs.call_rotated {art : Artifact} {e : Lambda} {declared : Nat} {f : Form Value}
    (h : art.Runs e declared f) {args : List Value} (hargs : args.map Value.ty = e.paramTypes) :
    art.call (args.drop declared ++ args.take declared) = f.eval .passing args.toArray [] := by
  have hlen : args.length = e.arity := by
    rw [← e.length_paramTypes, ← hargs, List.length_map]
  have hcount := h.count
  have hown : (args.take declared).length = declared := by
    rw [List.length_take]
    omega
  have hvalues : (args.drop declared).length = art.valueCount := by
    rw [List.length_drop]
    omega
  have htypes : art.paramTypes = (args.drop declared ++ args.take declared).map Value.ty := by
    rw [h.paramTypes, ← hargs, List.map_append, List.map_drop, List.map_take]
  have hcall := h.call _ _ hown hvalues
  rw [List.take_append_drop, htypes, checkArgs_self] at hcall
  exact hcall

namespace Lambda

variable {e : Lambda}

theorem interpret_typed {f : Form Value} (hf : e.HasForm f) {args : List Value}
    (hargs : args.map Value.ty = e.paramTypes) :
    e.interpret args = f.eval .asking args.toArray [] := by
  rw [interpret_eq hf, ← hargs, checkArgs_self]
  rfl

/-- No node that the root reaches is a logical operator. -/
def Plain (e : Lambda) : Prop :=
  ∀ id node, e.arena.Reaches e.root id → e.arena.get? id = some node →
    node.kind.isLogical = false

theorem Plain.steady (h : e.Plain) {f : Form Value} (hform : e.tree.form? = some f)
    (args : Array Value) (scope : List (Nat × Value)) : ¬ f.Stumbles args scope := by
  intro hstumbles
  obtain ⟨op, hop, hmem⟩ := hstumbles.exists_logical
  obtain ⟨id, node, hid, hnode, hlabel⟩ :=
    Arena.reaches_of_mem_labels (Arena.outline?_of_form? hform) hmem
  have hkind : node.kind.isLogical = true := by
    cases hk : node.kind <;> rw [hk] at hlabel <;> cases hlabel
    exact hop
  rw [h id node hid hnode] at hkind
  cases hkind

/-- Away from logical operators, lowered code says what the interpreter says. That
goes for every split of the parameters, and for arguments and constants whose lists
hold anything. -/
theorem call_rotated_eq_interpret {declared : Nat} {art : Artifact}
    (h : e.lower declared = .ok art) (hplain : e.Plain) {args : List Value}
    (hargs : args.map Value.ty = e.paramTypes) :
    ∃ r : Except EvalError Value,
      art.call (args.drop declared ++ args.take declared) = Stop.lift r ∧
      e.interpret args = Stop.lift r := by
  obtain ⟨f, hruns⟩ := lower_runs h
  have hsteady := hplain.steady hruns.form args.toArray []
  obtain ⟨r, hr⟩ : Settles (f.eval .passing args.toArray []) :=
    f.eval_settles Combine.settles_passing []
  refine ⟨r, (hruns.call_rotated hargs).trans hr, ?_⟩
  rw [interpret_typed hruns.hasForm hargs, Form.eval_asking_eq_passing_of_steady f hsteady, hr]

/-- The list holds five items, of which the last is no integer. -/
theorem call_rotated_eq_interpret_rebinding : ∃ art, rebinding.lower 1 = .ok art ∧
    art.call [.list .int [.int 1, .int 2, .int 3, .int 4, .str "five"], .int 1]
      = .ok (.str "five") ∧
    rebinding.interpret [.int 1, .list .int [.int 1, .int 2, .int 3, .int 4, .str "five"]]
      = .ok (.str "five") := by
  obtain ⟨art, hlower⟩ : ∃ art, rebinding.lower 1 = .ok art := ⟨_, rfl⟩
  have hnodes : ∀ node ∈ rebinding.arena.nodes.toList, node.kind.isLogical = false := by decide
  have hplain : rebinding.Plain := by
    intro id node _ hnode
    exact hnodes node (Array.mem_toList_iff.mpr (Array.mem_of_getElem? hnode))
  have hargs : [.int 1, .list .int [.int 1, .int 2, .int 3, .int 4, .str "five"]].map Value.ty
      = rebinding.paramTypes := rfl
  obtain ⟨r, hcall, hr⟩ := call_rotated_eq_interpret hlower hplain hargs
  have hvalue : rebinding.interpret
      [.int 1, .list .int [.int 1, .int 2, .int 3, .int 4, .str "five"]] = .ok (.str "five") := by
    decide +kernel
  exact ⟨art, hlower, hcall.trans (hr.symm.trans hvalue), hvalue⟩

/-- The evaluation of the expression comes to a logical operator with an operand that
is no boolean. -/
def Stumbles (e : Lambda) (args : List Value) : Prop :=
  ∃ f, e.tree.form? = some f ∧ f.Stumbles args.toArray []

/-- On arguments of the declared types, lowered code and the interpreter come to the
same value or error unless the evaluation stumbles over a logical operator. Then the
interpreter fails. So the interpreter returns a value exactly if the code returns it
without stumbling, and the two can only agree after a stumble if code goes on into an
error that happens to be the interpreter's. -/
theorem call_eq_interpret_iff_steady {art : Artifact} (h : e.lower e.arity = .ok art)
    {args : List Value} (hargs : args.map Value.ty = e.paramTypes) :
    (¬ e.Stumbles args → ∃ r : Except EvalError Value,
      art.call args = Stop.lift r ∧ e.interpret args = Stop.lift r) ∧
    (e.Stumbles args → ∃ cause, e.interpret args = .error (.error cause)) ∧
    (∀ v, e.interpret args = .ok v ↔ art.call args = .ok v ∧ ¬ e.Stumbles args) ∧
    (art.call args = e.interpret args ↔ ¬ e.Stumbles args ∨
      ∃ cause, art.call args = .error (.error cause) ∧
        e.interpret args = .error (.error cause)) := by
  obtain ⟨f, hruns⟩ := lower_runs h
  have hlen : args.length = e.arity := by
    rw [← e.length_paramTypes, ← hargs, List.length_map]
  have hcall := hruns.call_rotated hargs
  rw [← hlen, List.drop_length, List.take_length, List.nil_append] at hcall
  have hinterpret := interpret_typed hruns.hasForm hargs
  have hagree : ¬ e.Stumbles args → e.interpret args = art.call args := by
    intro hsteady
    rw [hinterpret, hcall]
    exact f.eval_asking_eq_passing_of_steady fun hf => hsteady ⟨f, hruns.form, hf⟩
  have hfails : e.Stumbles args → ∃ cause, e.interpret args = .error (.error cause) := by
    rintro ⟨g, hg, hstumbles⟩
    cases hruns.form.symm.trans hg
    rw [hinterpret]
    exact hstumbles.fails
  refine ⟨?_, hfails, ?_, ?_⟩
  · intro hsteady
    obtain ⟨r, hr⟩ : Settles (art.call args) := by
      rw [hcall]
      exact f.eval_settles Combine.settles_passing []
    exact ⟨r, hr, (hagree hsteady).trans hr⟩
  · intro v
    constructor
    · intro hv
      have hsteady : ¬ e.Stumbles args := by
        intro hstumbles
        obtain ⟨cause, hcause⟩ := hfails hstumbles
        rw [hv] at hcause
        cases hcause
      exact ⟨(hagree hsteady).symm.trans hv, hsteady⟩
    · rintro ⟨hv, hsteady⟩
      exact (hagree hsteady).trans hv
  · constructor
    · intro hsame
      by_cases hstumbles : e.Stumbles args
      · obtain ⟨cause, hcause⟩ := hfails hstumbles
        exact .inr ⟨cause, hsame.trans hcause, hcause⟩
      · exact .inl hstumbles
    · rintro (hsteady | ⟨cause, hcode, hcause⟩)
      · exact (hagree hsteady).symm
      · exact hcode.trans hcause.symm

/-- `xs[0] && true`. -/
def firstHolds : Lambda where
  params := [⟨"xs", .list .bool⟩]
  arena :=
    { nodes := #[⟨.param 0, .list .bool⟩, ⟨.const (.int 0), .int⟩, ⟨.index 0 1, .bool⟩,
        ⟨.const (.bool true), .bool⟩, ⟨.binary .and 2 3, .bool⟩]
      table := #[] }
  root := 4

/-- An item that decides, before one that is no boolean and is left alone. -/
theorem call_eq_interpret_iff_steady_firstHolds : ∃ art, firstHolds.lower 1 = .ok art ∧
    art.call [.list .bool [.bool false, .int 1]] = .ok (.bool false) ∧
    ¬ firstHolds.Stumbles [.list .bool [.bool false, .int 1]] := by
  obtain ⟨art, hlower⟩ : ∃ art, firstHolds.lower 1 = .ok art := ⟨_, rfl⟩
  have hvalue : firstHolds.interpret [.list .bool [.bool false, .int 1]] = .ok (.bool false) := by
    decide +kernel
  obtain ⟨-, -, hvalues, -⟩ := call_eq_interpret_iff_steady hlower
    (show [.list .bool [.bool false, .int 1]].map Value.ty = _ from rfl)
  obtain ⟨hcall, hsteady⟩ := (hvalues _).mp hvalue
  exact ⟨art, hlower, hcall, hsteady⟩

/-- Code returns an integer that the interpreter refuses to connect with a boolean. -/
theorem firstHolds_disagrees : ∃ art, firstHolds.lower firstHolds.arity = .ok art ∧
    [Value.list .bool [.int 1]].map Value.ty = firstHolds.paramTypes ∧
    firstHolds.Stumbles [.list .bool [.int 1]] ∧
    art.call [.list .bool [.int 1]] = .ok (.int 1) ∧
    firstHolds.interpret [.list .bool [.int 1]]
      = .error (.error (.operandMismatch "int" "bool")) :=
  ⟨_, rfl, rfl, ⟨_, rfl, .onLeft rfl rfl (by decide)⟩, by decide +kernel, by decide +kernel⟩

end Lambda

end Stencil
