import Stencil.Proofs.Abstraction

/-!
# Where variables get their values

A parameter gets its value from the arguments, a slot from the `let` around it. On a
well-formed expression both are there when they are asked for (`Form.eval_defined`):
the check of the arguments has counted them, and the bindings that the evaluation
carries are those of the slots that extraction had in scope (`Covers`). As the
evaluation of a form neither runs out of depth nor into a reference that leads
nowhere, the interpreter is safe on all that extraction accepts
(`Lambda.interpret_safe`).

It makes no difference whether the arguments of the last parameters are handed over
or are put in the place of these parameters first (`Lambda.interpret_reinsert`). The
values are put into the arena, at nodes that the evaluation may come to often or
never; so the comparison goes along the evaluation and not along a tree
(`Arena.eval_substitute`), and holds of malformed expressions as well.
-/

namespace Stencil

/-! ### Nothing is undefined -/

/-- The computation does not end with the complaint that a variable has no value. -/
def Defined {α : Type} (r : Except Stop α) : Prop :=
  ∀ name, r ≠ .error (.error (.undefinedVariable name))

namespace Defined

variable {α β : Type}

theorem ok (a : α) : Defined (.ok a) := nofun

theorem bind {r : Except Stop α} {k : α → Except Stop β} (hr : Defined r)
    (hk : ∀ a, Defined (k a)) : Defined (r >>= k) := by
  cases r with
  | ok a => exact hk a
  | error stop =>
    intro name h
    cases h
    exact hr name rfl

theorem definedOr {v : Option Value} (hv : ∃ w, v = some w) (name : String) :
    Defined (definedOr name v) := by
  obtain ⟨w, rfl⟩ := hv
  exact ok w

end Defined

theorem OnOperands.defined {α : Type} {r : Except EvalError α} (h : OnOperands r) :
    Defined (Stop.lift r) := by
  cases r with
  | ok a => exact .ok a
  | error cause =>
    intro name hname
    cases hname
    exact h

/-- A builtin may be given the wrong number of arguments, but it reads no variables. -/
theorem Builtin.defined_apply (f : Builtin) (vs : List Value) :
    Defined (Stop.lift (f.apply vs)) := by
  by_cases hlen : vs.length = f.arity
  · exact (onOperands_apply hlen).defined
  · intro name h
    unfold apply at h
    rw [if_pos hlen] at h
    cases h

theorem Combine.defined_asking (op : BinaryOp) (v : Value) {w : Except Stop Value}
    (hw : Defined w) : Defined (asking op v w) := by
  unfold asking
  split
  · exact .ok v
  · exact hw.bind fun u => (BinaryOp.onOperands_apply op v u).defined

/-- Every slot in scope is bound to a value. -/
def Covers (env : List (Nat × Value)) (scope : List Nat) : Prop :=
  ∀ slot ∈ scope, ∃ v, lookupSlot env slot = some v

theorem Covers.nil : Covers [] [] := List.forall_mem_nil _

theorem Covers.cons {env : List (Nat × Value)} {scope : List Nat} (h : Covers env scope)
    (slot : Nat) (v : Value) : Covers ((slot, v) :: env) (slot :: scope) := by
  intro s hs
  by_cases heq : slot = s
  · exact ⟨v, by simp [lookupSlot, heq]⟩
  · have hrest : s ∈ scope := (List.mem_cons.mp hs).resolve_left (Ne.symm heq)
    obtain ⟨w, hw⟩ := h s hrest
    exact ⟨w, by simpa [lookupSlot, heq] using hw⟩

namespace Form

variable {args : Array Value} {arity : Nat}

mutual

/-- A proper form finds a value for every variable, well typed or not. -/
theorem eval_defined (hargs : ∀ i, i < arity → ∃ v, args[i]? = some v) : (f : Form Value) →
    {scope : List Nat} → {env : List (Nat × Value)} → f.Proper arity scope → Covers env scope →
    Defined (f.eval .asking args env)
  | const _ v, _, _, _, _ => .ok v
  | param _ i, _, _, hf, _ => .definedOr (hargs i hf) _
  | localVar _ slot, _, _, hf, henv => .definedOr (henv slot hf) _
  | unary _ op x, _, _, hf, henv =>
    (eval_defined hargs x hf henv).bind fun v => (UnaryOp.onOperands_apply op v).defined
  | binary _ op l r, _, _, hf, henv =>
    (eval_defined hargs l hf.1 henv).bind fun v =>
      Combine.defined_asking op v (eval_defined hargs r hf.2 henv)
  | ite _ c x y, _, _, hf, henv => by
    refine (eval_defined hargs c hf.1 henv).bind fun v => ?_
    split
    · exact eval_defined hargs x hf.2.1 henv
    · exact eval_defined hargs y hf.2.2 henv
    · exact nofun
  | letIn _ slot i b, _, _, hf, henv =>
    (eval_defined hargs i hf.1 henv).bind fun v => eval_defined hargs b hf.2 (henv.cons slot v)
  | list t xs, _, _, hf, henv => by
    unfold eval
    split
    · exact nofun
    · exact (evalAll_defined hargs xs hf henv).bind fun _ => .ok _
  | index _ r i, _, _, hf, henv =>
    (eval_defined hargs r hf.1 henv).bind fun v =>
      (eval_defined hargs i hf.2 henv).bind fun w => (Value.onOperands_index v w).defined
  | call _ f xs, _, _, hf, henv =>
    (evalAll_defined hargs xs hf henv).bind fun vs => f.defined_apply vs

theorem evalAll_defined (hargs : ∀ i, i < arity → ∃ v, args[i]? = some v) :
    (fs : List (Form Value)) → {scope : List Nat} → {env : List (Nat × Value)} →
    AllProper arity scope fs → Covers env scope → Defined (evalAll .asking args env fs)
  | [], _, _, _, _ => .ok []
  | x :: xs, _, _, hf, henv =>
    (eval_defined hargs x hf.1 henv).bind fun _ =>
      (evalAll_defined hargs xs hf.2 henv).bind fun _ => .ok _

end

end Form

/-- The check of arguments complains of their number or of a type. -/
theorem defined_checkArgs (types : List Ty) (args : List Value) :
    Defined (Stop.lift (checkArgs types args)) := by
  by_cases hlen : args.length = types.length
  · cases h : checkArgs types args with
    | ok _ => exact .ok _
    | error cause =>
      obtain ⟨k, hk⟩ := checkArgs_eq_error hlen h
      obtain ⟨_, _, -, -, -, rfl⟩ := hk.here
      intro name hname
      cases hname
  · rw [checkArgs, if_neg hlen]
    intro name hname
    cases hname

namespace Lambda

variable {e : Lambda}

theorem HasForm.defined_interpret {f : Form Value} (hf : e.HasForm f) (args : List Value) :
    Defined (e.interpret args) := by
  rw [interpret_eq hf]
  cases hcheck : checkArgs e.paramTypes args with
  | error cause =>
    have hdefined := defined_checkArgs e.paramTypes args
    rw [hcheck] at hdefined
    intro name h
    cases h
    exact hdefined name rfl
  | ok _ =>
    have hlen : args.length = e.arity :=
      (checkArgs_eq_ok_iff.mp hcheck).length_eq.trans e.length_paramTypes
    have hargs : ∀ i, i < e.arity → ∃ v, args.toArray[i]? = some v := by
      intro i hi
      rw [List.getElem?_toArray]
      exact ⟨_, List.getElem?_eq_getElem (hlen ▸ hi)⟩
    exact f.eval_defined hargs hf.proper .nil

/-- The interpreter is safe on what extraction accepts, on any arguments: it ends with
a value or an error of the language, which never is that a variable has no value. It
does so at every depth that exceeds the number of the root. -/
theorem interpret_safe {x : Extracted} (h : e.extract = .ok x) (args : List Value) :
    ∃ r : Except EvalError Value, e.interpret args = Stop.lift r ∧
      (∀ name, r ≠ .error (.undefinedVariable name)) ∧
      (checkArgs e.paramTypes args = .ok () → ∀ depth, e.root < depth →
        e.arena.eval args.toArray depth [] e.root = Stop.lift r) := by
  obtain ⟨f, hf, -⟩ := extract_ok h
  obtain ⟨r, hr⟩ := interpret_settles hf args
  refine ⟨r, hr, ?_, ?_⟩
  · rintro name rfl
    exact hf.defined_interpret args name hr
  · intro hcheck depth hdepth
    rw [interpret_eq hf, hcheck] at hr
    rw [Arena.eval_eq hf.form hdepth]
    exact hr

/-- An index past the end of the list, which the slot of an inner `let` holds. -/
theorem interpret_safe_rebinding : (∃ x, rebinding.extract = .ok x) ∧
    rebinding.interpret [.int 5, .list .int []] = .error (.error (.indexOutOfBounds 36 2)) ∧
    ∀ depth, 10 < depth → rebinding.arena.eval #[.int 5, .list .int []] depth [] 10
      = .error (.error (.indexOutOfBounds 36 2)) := by
  have hvalue : rebinding.interpret [.int 5, .list .int []]
      = .error (.error (.indexOutOfBounds 36 2)) := by decide +kernel
  obtain ⟨r, hr, -, hdepth⟩ := interpret_safe (e := rebinding) rfl [.int 5, .list .int []]
  have hsame := hr.symm.trans hvalue
  refine ⟨⟨_, rfl⟩, hvalue, fun depth hlt => ?_⟩
  exact (hdepth rfl depth hlt).trans hsame

end Lambda

/-! ### Values in the place of parameters -/

namespace Arena

variable {replace : Nat → Ty → Option Value} {args rest : Array Value}

theorem size_mapKinds (a : Arena) (g : Kind → Ty → Kind) : (a.mapKinds g).size = a.size :=
  Array.size_map

theorem list?_mapKinds (a : Arena) (g : Kind → Ty → Kind) (r : Range) :
    (a.mapKinds g).list? r = a.list? r := rfl

/-- Evaluating with constants in the place of parameters: it is enough that the
constants are the arguments of these parameters, and that the other parameters keep
theirs. -/
theorem eval_substitute (a : Arena)
    (hplaced : ∀ i t, match replace i t with
      | some v => args[i]? = some v
      | none => rest[i]? = args[i]?)
    (depth : Nat) (scope : List (Nat × Value)) (id : NodeId) :
    (a.mapKinds (Kind.substitute replace)).eval rest depth scope id
      = a.eval args depth scope id := by
  induction depth generalizing scope id with
  | zero => rfl
  | succ depth ih =>
    have hids (scope) : (a.mapKinds (Kind.substitute replace)).eval rest depth scope
        = a.eval args depth scope := funext (ih scope)
    rw [eval, eval, get?_mapKinds]
    cases a.get? id with
    | none => rfl
    | some node =>
      obtain ⟨kind, ty⟩ := node
      cases kind with
      | param i =>
        have hi := hplaced i ty
        simp only [Option.map_some, Kind.substitute]
        cases hr : replace i ty with
        | some v =>
          rw [hr] at hi
          simp only [hi]
          rfl
        | none =>
          rw [hr] at hi
          simp only [hi]
      | _ => simp only [Option.map_some, Kind.substitute, hids, list?_mapKinds]

end Arena

/-- The arguments from `kept` on stand where the others leave off. -/
theorem getElem?_take_or_drop (args : List Value) (kept i : Nat) :
    match (if kept ≤ i then (args.drop kept).toArray[i - kept]? else none) with
    | some v => args.toArray[i]? = some v
    | none => (args.take kept).toArray[i]? = args.toArray[i]? := by
  simp only [List.getElem?_toArray, List.getElem?_drop]
  by_cases hi : kept ≤ i
  · rw [if_pos hi, Nat.add_sub_cancel' hi]
    cases hv : args[i]? with
    | some v => rfl
    | none => exact List.getElem?_eq_none (by rw [List.length_take]; omega)
  · rw [if_neg hi]
    exact List.getElem?_take_of_lt (Nat.not_le.mp hi)

namespace Lambda

/-- Putting values in the place of the last parameters is partial application. If the
arguments from `kept` on carry the declared types, it comes to the same whether they
are put in or handed over; the others may be anything. What it comes to is a value or
an error of the language if the expression is well formed. -/
theorem interpret_reinsert (e : Lambda) (kept : Nat) (args : List Value)
    (hlen : args.length = e.arity)
    (htypes : (args.drop kept).map Value.ty = e.paramTypes.drop kept) :
    (e.reinsert kept (args.drop kept)).interpret (args.take kept) = e.interpret args ∧
    ∀ x, e.extract = .ok x → ∃ r : Except EvalError Value, e.interpret args = Stop.lift r := by
  constructor
  · have hparams : (e.reinsert kept (args.drop kept)).paramTypes = e.paramTypes.take kept :=
      List.map_take
    have hcheck : checkArgs (e.paramTypes.take kept) (args.take kept)
        = checkArgs e.paramTypes args := by
      have htake : (args.take kept).length = (e.paramTypes.take kept).length := by
        rw [List.length_take, List.length_take, hlen, length_paramTypes]
      have h := checkArgs_append_right htake (args.drop kept)
      rw [htypes, List.take_append_drop, List.take_append_drop] at h
      exact h.symm
    have heval (depth) := e.arena.eval_substitute
      (fun i _ => getElem?_take_or_drop args kept i) depth [] e.root
    rw [interpret, interpret, hparams, hcheck]
    simp only [← heval]
    rw [← e.arena.size_mapKinds]
    rfl
  · intro x hx
    obtain ⟨f, hf, -⟩ := extract_ok hx
    exact interpret_settles hf args

/-- With the list put in, of which the last item is no integer; and with the same list
before an argument of the wrong type. -/
theorem interpret_reinsert_rebinding :
    let items : Value := .list .int [.int 1, .int 2, .int 3, .int 4, .str "five"]
    (rebinding.reinsert 1 [items]).interpret [.int 1] = .ok (.str "five") ∧
    (rebinding.reinsert 1 [items]).interpret [.bool true]
      = .error (.error (.typeMismatch .int .bool)) := by
  intro items
  have hvalue : rebinding.interpret [.int 1, items] = .ok (.str "five") := by decide +kernel
  have hfault : rebinding.interpret [.bool true, items]
      = .error (.error (.typeMismatch .int .bool)) := rfl
  obtain ⟨hsame, -⟩ := interpret_reinsert rebinding 1 [.int 1, items] rfl rfl
  obtain ⟨hsame', -⟩ := interpret_reinsert rebinding 1 [.bool true, items] rfl rfl
  exact ⟨hsame.trans hvalue, hsame'.trans hfault⟩

end Lambda

end Stencil
