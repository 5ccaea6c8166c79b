import Stencil.Proofs.Soundness

/-!
# A compiled function describes its expression

The signature of a compiled function is read off an artifact that may have been
made from another expression of the same shape: the places of the argument vector
behind the constants are the caller's. `Handle.Describes` says that what is read
off is right for the expression at hand, and `Compiler.compile_describes` that it
always is.

What a call complains of is then the caller's doing. The check of the argument
vector stops at the first value that does not carry its type
(`checkArgs_eq_error`), which is never a constant. And past the check nobody
miscounts: lowering has counted the arguments of every builtin
(`Form.counts_eval`).
-/

namespace Stencil

/-! ### The first argument of a wrong type -/

/-- The value at place `k` is the first that does not carry its type, and `cause`
says so. -/
structure FailsAt (types : List Ty) (args : List Value) (k : Nat) (cause : EvalError) : Prop where
  before : ∀ j, j < k → args[j]?.map Value.ty = types[j]?
  here : ∃ v t, args[k]? = some v ∧ types[k]? = some t ∧ v.ty ≠ t ∧ cause = .typeMismatch t v.ty

namespace FailsAt

variable {types : List Ty} {args : List Value} {k : Nat} {cause : EvalError}

/-- Values in front that carry their types move the place and nothing else. -/
theorem append (h : FailsAt types args k cause) (values : List Value) :
    FailsAt (values.map Value.ty ++ types) (values ++ args) (values.length + k) cause where
  before j hj := by
    by_cases hv : j < values.length
    · rw [List.getElem?_append_left hv, List.getElem?_append_left (by rwa [List.length_map]),
        List.getElem?_map]
    · have hge : values.length ≤ j := Nat.le_of_not_lt hv
      rw [List.getElem?_append_right hge,
        List.getElem?_append_right (by rwa [List.length_map]), List.length_map]
      exact h.before _ (by omega)
  here := by
    obtain ⟨v, t, hv, ht, hrest⟩ := h.here
    refine ⟨v, t, ?_, ?_, hrest⟩
    · rw [List.getElem?_append_right (Nat.le_add_right _ _), Nat.add_sub_cancel_left, hv]
    · rw [List.getElem?_append_right (by rw [List.length_map]; omega), List.length_map,
        Nat.add_sub_cancel_left, ht]

end FailsAt

/-- The walk along the types stops at the first value that does not carry its type. -/
theorem checkTypes_eq_error {types : List Ty} {args : List Value} {cause : EvalError}
    (h : checkTypes types args = .error cause) : ∃ k, FailsAt types args k cause := by
  induction types generalizing args with
  | nil => cases h
  | cons t ts ih =>
    cases args with
    | nil => cases h
    | cons v vs =>
      rw [checkTypes] at h
      by_cases hv : v.ty = t
      · rw [if_pos hv] at h
        obtain ⟨k, hk⟩ := ih h
        subst hv
        exact ⟨[v].length + k, hk.append [v]⟩
      · rw [if_neg hv] at h
        cases h
        exact ⟨0, fun j hj => absurd hj (Nat.not_lt_zero j), v, t, rfl, rfl, hv, rfl⟩

/-- A vector of the right length fails the check at the first value of a wrong type. -/
theorem checkArgs_eq_error {types : List Ty} {args : List Value} {cause : EvalError}
    (hlen : args.length = types.length) (h : checkArgs types args = .error cause) :
    ∃ k, FailsAt types args k cause := by
  rw [checkArgs, if_pos hlen] at h
  exact checkTypes_eq_error h

/-! ### Nobody miscounts -/

/-- The failure is a wrong number of arguments, of the function or of a builtin. -/
def Error.isArity : Error → Bool
  | arity _ _ | evaluation (.error (.arity _ _ _)) => true
  | _ => false

/-- The computation does not end with a complaint about a number of arguments. -/
def Counts {α : Type} : Except Stop α → Prop
  | .error (.error (.arity _ _ _)) => False
  | _ => True

/-- The second step only has to count for the values that the first one gives. -/
theorem Counts.bind {α β : Type} {r : Except Stop α} {k : α → Except Stop β} (hr : Counts r)
    (hk : ∀ a, r = .ok a → Counts (k a)) : Counts (r >>= k) := by
  cases r with
  | ok a => exact hk a rfl
  | error stop =>
    cases stop with
    | error cause => cases cause <;> exact hr
    | outOfBounds | unfinished => trivial

/-- Seen from outside, the failure is no miscount either. -/
theorem Counts.isArity_eq_false {r : Except Stop Value} (h : Counts r) {fault : Error}
    (hfault : r.mapError .evaluation = .error fault) : fault.isArity = false := by
  cases r with
  | ok v => cases hfault
  | error stop =>
    cases hfault
    cases stop with
    | error cause =>
      cases cause with
      | arity _ _ _ => exact h.elim
      | _ => rfl
    | outOfBounds | unfinished => rfl

theorem counts_definedOr (name : String) (v : Option Value) : Counts (definedOr name v) := by
  cases v <;> trivial

/-- The operation has a result or complains of its operands: not of a variable, and
not of a number of arguments. -/
def OnOperands {α : Type} : Except EvalError α → Prop
  | .error (.undefinedVariable _) | .error (.arity _ _ _) => False
  | _ => True

/-- An operation that complains of its operands does not miscount. -/
theorem OnOperands.counts {α : Type} {r : Except EvalError α} (h : OnOperands r) :
    Counts (Stop.lift r) := by
  cases r with
  | ok a => trivial
  | error cause =>
    cases cause with
    | arity _ _ _ => exact h.elim
    | _ => trivial

/-- A checked integer complains of nothing but overflow. -/
theorem onOperands_checkedInt (operation : String) (n : Int) :
    OnOperands (checkedInt operation n) := by
  unfold checkedInt
  cases int64? n <;> trivial

namespace BinaryOp

/-- A comparison complains of nothing but the kind of its operands. -/
theorem onOperands_comparison (op : BinaryOp) (order : Option Ordering) (operand : String) :
    OnOperands (op.comparison order operand) := by
  unfold comparison
  split <;> trivial

/-- On integers, operators fail by overflow, by a zero divisor or on their kind. -/
theorem onOperands_applyInt (op : BinaryOp) (a b : Int64) : OnOperands (op.applyInt a b) := by
  unfold applyInt
  split
  case h_1 | h_2 | h_3 => exact onOperands_checkedInt _ _
  case h_4 =>
    split
    · trivial
    · exact onOperands_checkedInt _ _
  case h_5 =>
    split
    · trivial
    · split
      · trivial
      · exact onOperands_checkedInt _ _
  case h_6 => exact onOperands_comparison _ _ _

theorem onOperands_applyFloat (op : BinaryOp) (a b : Binary64) :
    OnOperands (op.applyFloat a b) := by
  unfold applyFloat
  split
  case h_6 => exact onOperands_comparison _ _ _
  all_goals trivial

theorem onOperands_applyBool (op : BinaryOp) (a b : Bool) : OnOperands (op.applyBool a b) := by
  unfold applyBool
  split <;> trivial

theorem onOperands_applyStr (op : BinaryOp) (a b : String) : OnOperands (op.applyStr a b) := by
  unfold applyStr
  split
  · trivial
  · exact onOperands_comparison _ _ _

theorem onOperands_applyUnit (op : BinaryOp) : OnOperands op.applyUnit := by
  unfold applyUnit
  split <;> trivial

theorem onOperands_applyList (op : BinaryOp) (s : Ty) (xs : List Value) (t : Ty)
    (ys : List Value) : OnOperands (op.applyList s xs t ys) := by
  unfold applyList
  split
  case h_1 => split <;> trivial
  all_goals trivial

/-- Binary operators complain of their operands only. -/
theorem onOperands_apply (op : BinaryOp) (v w : Value) : OnOperands (op.apply v w) := by
  cases v <;> cases w
  case int.int a b => exact onOperands_applyInt op a b
  case float.float a b => exact onOperands_applyFloat op a b
  case bool.bool a b => exact onOperands_applyBool op a b
  case str.str a b => exact onOperands_applyStr op a b
  case list.list s xs t ys => exact onOperands_applyList op s xs t ys
  case unit.unit => exact onOperands_applyUnit op
  -- operands of two kinds: the complaint names the kinds
  all_goals exact True.intro

end BinaryOp

/-- Unary operators complain of their operand only. -/
theorem UnaryOp.onOperands_apply (op : UnaryOp) (v : Value) : OnOperands (op.apply v) := by
  unfold apply
  split
  case h_1 => exact onOperands_checkedInt _ _
  all_goals trivial

/-- Indexing complains of the list, of the index, or of their kinds. -/
theorem Value.onOperands_index (receiver position : Value) :
    OnOperands (receiver.index position) := by
  unfold index
  split
  · split <;> trivial
  all_goals trivial

/-- An extremum complains of operands that have no order. -/
theorem Builtin.onOperands_extremum (f : Builtin) (smallest : Bool) (v w : Value) :
    OnOperands (f.extremum smallest v w) := by
  unfold extremum
  split
  case h_2 => split <;> trivial
  all_goals trivial

/-- A builtin on as many arguments as it takes. -/
theorem Builtin.onOperands_apply {f : Builtin} {vs : List Value} (hlen : vs.length = f.arity) :
    OnOperands (f.apply vs) := by
  unfold apply
  rw [if_neg (not_not_intro hlen)]
  split
  case h_1 | h_5 | h_6 =>
    -- at full transparency the range check is unfolded on the natural number
    with_reducible exact onOperands_checkedInt _ _
  case h_3 | h_4 => exact onOperands_extremum _ _ _ _
  case h_8 =>
    unfold truncated
    split <;> trivial
  case h_10 => cases f <;> cases hlen
  all_goals trivial

/-- A logical operator passes on the count of its right operand. -/
theorem Combine.counts_passing (op : BinaryOp) (v : Value) {w : Except Stop Value}
    (hw : Counts w) : Counts (passing op v w) := by
  cases op with
  | and | or =>
    rw [passing]
    split
    · exact hw
    · trivial
  | _ => exact hw.bind fun u _ => (BinaryOp.onOperands_apply _ v u).counts

/-- As many values as forms: this is what builtins are called with. -/
theorem Form.length_evalAll {k : Combine} {args : Array Value} {env : List (Nat × Value)}
    {fs : List (Form Value)} {vs : List Value} (h : evalAll k args env fs = .ok vs) :
    vs.length = fs.length := by
  induction fs generalizing vs with
  | nil =>
    cases h
    rfl
  | cons f fs ih =>
    obtain ⟨v, -, h⟩ := bind_eq_ok h
    obtain ⟨ws, hws, h⟩ := bind_eq_ok h
    cases h
    rw [List.length_cons, List.length_cons, ih hws]

namespace Form

variable {params : List Ty} {args : Array Value}

mutual

/-- The arguments of every builtin in a well-typed form are as many as it takes,
whatever the values are. -/
theorem counts_eval : (f : Form Value) → {scope : List (Nat × Ty)} → {env : List (Nat × Value)} →
    f.WellTyped params scope → Counts (f.eval .passing args env)
  | const _ _, _, _, _ => trivial
  | param _ _, _, _, _ | localVar _ _, _, _, _ => counts_definedOr _ _
  | unary _ op x, _, _, hf =>
    (counts_eval x hf.1).bind fun v _ => (UnaryOp.onOperands_apply op v).counts
  | binary _ op l r, _, _, hf =>
    (counts_eval l hf.1).bind fun v _ => Combine.counts_passing op v (counts_eval r hf.2.1)
  | ite _ c x y, _, _, hf => by
    refine (counts_eval c hf.1).bind fun v _ => ?_
    split
    · exact counts_eval x hf.2.1
    · exact counts_eval y hf.2.2.1
    · trivial
  | letIn _ slot i b, _, _, hf => (counts_eval i hf.1).bind fun v _ => counts_eval b hf.2.1
  | list _ xs, _, _, hf => by
    obtain ⟨elem, rfl, hxs, -⟩ := hf
    exact (counts_evalAll xs hxs).bind fun _ _ => trivial
  | index _ r i, _, _, hf =>
    (counts_eval r hf.1).bind fun v _ =>
      (counts_eval i hf.2.1).bind fun w _ => (Value.onOperands_index v w).counts
  | call _ b xs, _, _, hf =>
    (counts_evalAll xs hf.2.1).bind fun _ hvs =>
      (Builtin.onOperands_apply ((length_evalAll hvs).trans hf.1)).counts

theorem counts_evalAll : (fs : List (Form Value)) → {scope : List (Nat × Ty)} →
    {env : List (Nat × Value)} → AllWellTyped params scope fs →
    Counts (evalAll .passing args env fs)
  | [], _, _, _ => trivial
  | x :: xs, _, _, hf =>
    (counts_eval x hf.1).bind fun _ _ => (counts_evalAll xs hf.2).bind fun _ _ => trivial

end

end Form

/-- With the right number of arguments, the check complains of types only. -/
theorem counts_checkArgs {types : List Ty} {args : List Value} (hlen : args.length = types.length) :
    Counts (Stop.lift (checkArgs types args)) := by
  cases h : checkArgs types args with
  | ok _ => trivial
  | error cause =>
    obtain ⟨k, hk⟩ := checkArgs_eq_error hlen h
    obtain ⟨_, _, -, -, -, rfl⟩ := hk.here
    trivial

/-- Code that runs a form does not miscount when it gets all of its values. -/
theorem Artifact.Runs.counts_call {art : Artifact} {e : Lambda} {declared : Nat} {f : Form Value}
    (h : art.Runs e declared f) {own values : List Value} (hown : own.length = declared)
    (hvalues : values.length = art.valueCount) : Counts (art.call (values ++ own)) := by
  have hlen : (values ++ own).length = art.paramTypes.length := by
    have hcount := h.count
    rw [h.paramTypes]
    simp only [List.length_append, List.length_drop, List.length_take, e.length_paramTypes]
    omega
  rw [h.call own values hown hvalues]
  exact (counts_checkArgs hlen).bind fun _ _ => f.counts_eval h.typed

/-! ### What is read off an artifact -/

/-- Taking out constants keeps the type of the root. -/
theorem Form.ty_hole {κ μ : Type} (f : Form κ) (next : Nat) : (f.hole next : Form μ).ty = f.ty := by
  cases f <;> rfl

/-- A form records the type of its node. -/
theorem Arena.ty_compose {a : Arena} {node : Node} {child : NodeId → Option (Form Value)}
    {f : Form Value} (h : a.compose node child = some f) : f.ty = node.ty := by
  obtain ⟨kind, ty⟩ := node
  cases kind <;> simp only [compose, Option.bind_eq_bind, Option.bind_eq_some_iff] at h
  case unary =>
    obtain ⟨_, -, h⟩ := h
    cases h
    rfl
  case binary | letIn | index | list | call =>
    obtain ⟨_, -, _, -, h⟩ := h
    cases h
    rfl
  case ite =>
    obtain ⟨_, -, _, -, _, -, h⟩ := h
    cases h
    rfl
  all_goals
    cases h
    rfl

/-- The type of a node can be read off its form. -/
theorem Arena.ty?_eq {a : Arena} {id : NodeId} {f : Form Value} (h : a.form? id = some f) :
    a.ty? id = some f.ty := by
  rw [form?_eq, Option.bind_eq_some_iff] at h
  obtain ⟨node, hnode, h⟩ := h
  rw [ty?, hnode, ty_compose h]
  rfl

/-- The handle holds the constants of the expression, and what is read off its
artifact is the signature of the expression. -/
structure Handle.Describes (handle : Handle) (e : Lambda) : Prop where
  values : e.extractValues = .ok handle.values
  count : handle.artifact.valueCount = handle.values.length
  valueTypes : handle.artifact.paramTypes.take handle.artifact.valueCount
    = handle.values.map Value.ty
  paramTypes : handle.paramTypes = e.paramTypes
  arity : handle.arity = e.arity
  returnType : e.returnType? = some handle.returnType

namespace Handle

variable {handle : Handle} {e : Lambda}

/-- What comes out of a build describes the expression that was built. -/
theorem describes_of_build (h : e.build = .ok (handle.artifact, handle.values)) :
    handle.Describes e := by
  obtain ⟨f, hf, hconsts, hrun⟩ := Lambda.build_ok h
  have htypes := Lambda.vector_types hrun
  have hcount := Lambda.length_consts_eq hrun
  rw [← hconsts] at htypes hcount
  have hsplit : (handle.values.map Value.ty).length = handle.artifact.valueCount := by
    rw [List.length_map, hcount]
  refine ⟨?_, hcount.symm, ?_, ?_, ?_, ?_⟩
  · rw [Lambda.extractValues_eq, Lambda.extract_eq hf, hconsts]
    rfl
  · rw [htypes, List.take_left' hsplit]
  · rw [paramTypes, htypes, List.drop_left' hsplit]
  · rw [arity, Artifact.arity, htypes, List.length_append, hsplit, Nat.add_sub_cancel_left,
      e.length_paramTypes]
  · rw [returnType, hrun.returnType, Form.ty_hole]
    exact Arena.ty?_eq hf.form

/-- The artifact expects the constants in front of the arguments. -/
theorem Describes.vector_types (h : handle.Describes e) :
    handle.artifact.paramTypes = handle.values.map Value.ty ++ e.paramTypes := by
  rw [← h.valueTypes, ← h.paramTypes]
  exact (List.take_append_drop _ _).symm

/-- The argument vector is right if the caller's part of it is. -/
theorem Describes.checkArgs_eq (h : handle.Describes e) {args : List Value}
    (hlen : args.length = e.arity) :
    checkArgs handle.artifact.paramTypes (handle.values ++ args) = checkArgs e.paramTypes args := by
  rw [h.vector_types, checkArgs_append _ (hlen.trans e.length_paramTypes.symm)]

/-- A wrong number of arguments is refused before anything runs. -/
theorem Describes.call_of_ne (h : handle.Describes e) {args : List Value}
    (hlen : args.length ≠ e.arity) : handle.call args = .error (.arity e.arity args.length) := by
  rw [call, Artifact.invoke, h.arity, if_neg hlen]

theorem Describes.call_of_eq (h : handle.Describes e) {args : List Value}
    (hlen : args.length = e.arity) :
    handle.call args = (handle.artifact.call (handle.values ++ args)).mapError .evaluation := by
  rw [call, Artifact.invoke, h.arity, if_pos hlen]

theorem Describes.call_fails (h : handle.Describes e) {args : List Value}
    (hlen : args.length = e.arity) {cause : EvalError}
    (hcheck : checkArgs handle.artifact.paramTypes (handle.values ++ args) = .error cause) :
    handle.call args = .error (.evaluation (.error cause)) := by
  rw [h.call_of_eq hlen, Artifact.call, hcheck]
  rfl

/-- What the check complains of is one of the caller's arguments, and none of the
constants in front of them. -/
theorem Describes.failsAt (h : handle.Describes e) {args : List Value}
    (hlen : args.length = e.arity) {cause : EvalError}
    (hcheck : checkArgs handle.artifact.paramTypes (handle.values ++ args) = .error cause) :
    ∃ i, FailsAt e.paramTypes args i cause ∧
      FailsAt handle.artifact.paramTypes (handle.values ++ args) (handle.values.length + i)
        cause := by
  rw [h.checkArgs_eq hlen] at hcheck
  obtain ⟨i, hi⟩ := checkArgs_eq_error (hlen.trans e.length_paramTypes.symm) hcheck
  refine ⟨i, hi, ?_⟩
  rw [h.vector_types]
  exact hi.append handle.values

end Handle

/-- After any session, a compiled expression has a handle that describes it,
whatever expression the artifact was made from. A call complains about a number of
arguments exactly if it has another number than the expression has parameters, and
if it complains about the type of an argument when it is entered, that argument is
the caller's. -/
theorem Compiler.compile_describes (calls : List Call) (e : Lambda) {handle : Handle}
    (hcompile : ((isolated.afterAll calls).compile e).1 = .ok handle) :
    handle.Describes e ∧
    (∀ args : List Value,
      ((∃ fault, handle.call args = .error fault ∧ fault.isArity = true)
        ↔ args.length ≠ e.arity) ∧
      (args.length ≠ e.arity → handle.call args = .error (.arity e.arity args.length))) ∧
    ∀ (args : List Value) (cause : EvalError), args.length = e.arity →
      checkArgs handle.artifact.paramTypes (handle.values ++ args) = .error cause →
      handle.call args = .error (.evaluation (.error cause)) ∧
      ∃ i, FailsAt e.paramTypes args i cause ∧
        FailsAt handle.artifact.paramTypes (handle.values ++ args) (handle.values.length + i)
          cause := by
  have hbuild := ((honest_afterAll calls).compile e).2
  rw [hcompile] at hbuild
  have hd : handle.Describes e := Handle.describes_of_build hbuild.symm
  refine ⟨hd, fun args => ⟨⟨?_, fun hlen => ⟨_, hd.call_of_ne hlen, rfl⟩⟩, hd.call_of_ne⟩, ?_⟩
  · rintro ⟨fault, hcall, hfault⟩ hlen
    obtain ⟨f, -, hconsts, hrun⟩ := Lambda.build_ok hbuild.symm
    have hcounts := hrun.counts_call hlen hd.count.symm
    rw [hd.call_of_eq hlen] at hcall
    rw [hcounts.isArity_eq_false hcall] at hfault
    cases hfault
  · intro args cause hlen hcheck
    exact ⟨hd.call_fails hlen hcheck, hd.failsAt hlen hcheck⟩

/-- The artifact was made from an expression with other constants; of the vector
`1, [1, 2], 4, "x"` the last value is complained of. -/
theorem Compiler.compile_describes_rebinding : ∃ handle,
    ((isolated.afterAll [.compile .rebindingSpread]).compile .rebinding).1 = .ok handle ∧
    handle.Describes .rebinding ∧
    handle.call [.int 4] = .error (.arity 2 1) ∧
    handle.call [.int 4, .str "x"]
      = .error (.evaluation (.error (.typeMismatch (.list .int) .str))) ∧
    ∃ i, FailsAt handle.artifact.paramTypes (handle.values ++ [.int 4, .str "x"])
      (handle.values.length + i) (.typeMismatch (.list .int) .str) := by
  have hok :
      ((isolated.afterAll [.compile .rebindingSpread]).compile .rebinding).1.isOk = true := by
    decide +kernel
  cases hcompile : ((isolated.afterAll [.compile .rebindingSpread]).compile .rebinding).1 with
  | error fault =>
    rw [hcompile] at hok
    cases hok
  | ok handle =>
    obtain ⟨hd, harity, hentry⟩ := compile_describes _ _ hcompile
    have hcheck : checkArgs handle.artifact.paramTypes (handle.values ++ [.int 4, .str "x"])
        = .error (.typeMismatch (.list .int) .str) := hd.checkArgs_eq rfl
    obtain ⟨hcall, i, -, hi⟩ := hentry _ _ rfl hcheck
    exact ⟨handle, rfl, hd, (harity [.int 4]).2 (by decide), hcall, i, hi⟩

end Stencil
