import Stencil.Proofs.Checking
import Stencil.Proofs.Session

/-!
# Compiled code is sound and says what the interpreter says

An artifact `Runs` a form if calling it is a check of the argument vector and then
an evaluation of the form; what an expression lowers to runs the form of the
expression (`Lambda.lower_runs`). The types that lowering checked then hold when the
code runs (`Artifact.call_type_sound`).

A compiled function runs the form of a skeleton, on the constants of the expression
at hand followed by the caller's arguments. The constants always pass the check, so
the whole vector passes if the caller's arguments do, and fails on the argument that
the interpreter complains of. Past the check both sides evaluate the same form, and
so every evaluation in every session is an interpretation
(`Compiler.evaluate_eq_interpret`).
-/

namespace Stencil

/-! ### The check of arguments -/

theorem checkArgs_eq_ok_iff {types : List Ty} {args : List Value} :
    checkArgs types args = .ok () ↔ List.Forall₂ (fun v t => v.ty = t) args types := by
  induction types generalizing args with
  | nil => cases args <;> simp [checkArgs, checkTypes]
  | cons t ts ih =>
    cases args with
    | nil => simp [checkArgs]
    | cons v vs =>
      rw [List.forall₂_cons, ← ih]
      by_cases hlen : vs.length = ts.length
      · by_cases hv : v.ty = t <;> simp [checkArgs, checkTypes, hlen, hv]
      · simp [checkArgs, hlen]

theorem checkTypes_self (values : List Value) :
    checkTypes (values.map Value.ty) values = .ok () := by
  induction values with
  | nil => rfl
  | cons v vs ih =>
    rw [List.map_cons, checkTypes, if_pos rfl]
    exact ih

theorem checkArgs_self (values : List Value) : checkArgs (values.map Value.ty) values = .ok () := by
  rw [checkArgs, if_pos (List.length_map _).symm, checkTypes_self]

/-- Values that are checked against their own types never fail the check. -/
theorem checkArgs_append (values : List Value) {types : List Ty} {args : List Value}
    (hlen : args.length = types.length) :
    checkArgs (values.map Value.ty ++ types) (values ++ args) = checkArgs types args := by
  induction values with
  | nil => rfl
  | cons v vs ih =>
    rw [← ih]
    simp [checkArgs, checkTypes, hlen]

theorem argsFit_of_forall₂ {types : List Ty} {args : List Value}
    (h : List.Forall₂ Value.Fits args types) : ArgsFit types args.toArray := by
  intro i t ht
  obtain ⟨hi, rfl⟩ := List.getElem?_eq_some_iff.mp ht
  have hi' : i < args.length := by rw [h.length_eq]; exact hi
  exact ⟨args[i], by rw [List.getElem?_toArray, List.getElem?_eq_getElem hi'], h.get hi' hi⟩

/-! ### What lowering gives -/

/-- The artifact runs the form of an expression of which the first `declared`
parameters are the caller's. -/
structure Artifact.Runs (art : Artifact) (e : Lambda) (declared : Nat) (f : Form Value) :
    Prop where
  form : e.tree.form? = some f
  typed : f.WellTyped e.paramTypes []
  paramTypes : art.paramTypes = e.paramTypes.drop declared ++ e.paramTypes.take declared
  count : declared + art.valueCount = e.arity
  returnType : art.returnType = f.ty
  call : ∀ own values : List Value, own.length = declared → values.length = art.valueCount →
    art.call (values ++ own) = (Stop.lift (checkArgs art.paramTypes (values ++ own)) >>= fun _ =>
      f.eval .passing (own ++ values).toArray [])

/-- The caller's arguments and the constants are where the code looks for them. -/
theorem placed_append {c : Convention} {own values : List Value} (hown : own.length = c.declared)
    (hsize : own.length + values.length = c.params.size) :
    Placed c (own ++ values).toArray (values ++ own).toArray := by
  intro i hi
  have hcount : c.valueCount = values.length := by rw [Convention.valueCount]; omega
  rw [List.getElem?_toArray, List.getElem?_toArray, Convention.position, hcount, ← hown]
  by_cases h : i < own.length
  · refine ⟨own[i], ?_, ?_⟩
    · rw [List.getElem?_append_left h, List.getElem?_eq_getElem h]
    · rw [if_pos h, List.getElem?_append_right (Nat.le_add_right _ _), Nat.add_sub_cancel_left,
        List.getElem?_eq_getElem h]
  · have h' : i - own.length < values.length := by omega
    refine ⟨values[i - own.length], ?_, ?_⟩
    · rw [List.getElem?_append_right (by omega), List.getElem?_eq_getElem h']
    · rw [if_neg h, List.getElem?_append_left h', List.getElem?_eq_getElem h']

theorem Lambda.lower_runs {e : Lambda} {declared : Nat} {art : Artifact}
    (h : e.lower declared = .ok art) : ∃ f, art.Runs e declared f := by
  obtain ⟨hle, f, hform, htyped, rfl⟩ := e.lower_ok h
  have harity : e.paramTypes.toArray.size = e.arity := e.length_paramTypes
  refine ⟨f, hform, htyped, rfl, ?_, rfl, ?_⟩
  · simp only [Form.artifact, Convention.valueCount, harity]
    omega
  · intro own values hown hvalues
    simp only [Form.artifact, Convention.valueCount, harity] at hvalues
    have hsize : own.length + values.length = e.paramTypes.toArray.size := by omega
    have hplaced : Placed ⟨e.paramTypes.toArray, declared⟩ _ _ := placed_append hown hsize
    have hclosed : f.WellTyped e.paramTypes (slotTypes []) := htyped
    have hrun := Form.run_emit hplaced f hclosed (.nil 0 (Array.replicate f.lets .unit))
      (by simp)
    rw [Artifact.call, ← hrun.value]
    rfl

theorem Lambda.lower_runs_of_form {e : Lambda} {declared : Nat} {art : Artifact} {f : Form Value}
    (h : e.lower declared = .ok art) (hform : e.tree.form? = some f) : art.Runs e declared f := by
  obtain ⟨g, hrun⟩ := lower_runs h
  cases hrun.form.symm.trans hform
  exact hrun

section

variable {art : Artifact} {e : Lambda} {f : Form Value}

/-- Where all parameters are the caller's, the argument vector is the arguments. -/
theorem Artifact.Runs.paramTypes_eq (h : art.Runs e e.arity f) : art.paramTypes = e.paramTypes := by
  rw [h.paramTypes, ← e.length_paramTypes, List.drop_length, List.take_length, List.nil_append]

theorem Artifact.Runs.call_eq (h : art.Runs e e.arity f) {args : List Value}
    (hlen : args.length = e.arity) :
    art.call args = (Stop.lift (checkArgs e.paramTypes args) >>= fun _ =>
      f.eval .passing args.toArray []) := by
  have hnone : ([] : List Value).length = art.valueCount := by
    have hcount := h.count
    rw [List.length_nil]
    omega
  have hcall := h.call args [] hlen hnone
  rwa [List.nil_append, List.append_nil, h.paramTypes_eq] at hcall

end

/-! ### Type soundness -/

/-- The constants of an expression, those of unused nodes left out. -/
def Lambda.constants (e : Lambda) : List Value := (e.tree.form?.map Form.consts).getD []

namespace Artifact

theorem Runs.delivers_call {art : Artifact} {e : Lambda} {declared : Nat} {f : Form Value}
    (h : art.Runs e declared f) (hconsts : ∀ v ∈ f.consts, v.uniform = true) {flat : List Value}
    (hflat : List.Forall₂ Value.Fits flat art.paramTypes) :
    Delivers art.returnType (art.call flat) := by
  have hlen : (e.paramTypes.drop declared).length = art.valueCount := by
    rw [List.length_drop, e.length_paramTypes, ← h.count, Nat.add_sub_cancel_left]
  have hvalues := List.forall₂_take art.valueCount hflat
  have hown := List.forall₂_drop art.valueCount hflat
  rw [h.paramTypes, List.take_left' hlen] at hvalues
  rw [h.paramTypes, List.drop_left' hlen] at hown
  -- the evaluator has the caller's arguments first
  have hargs : ArgsFit (e.paramTypes.take declared ++ e.paramTypes.drop declared)
      (flat.drop art.valueCount ++ flat.take art.valueCount).toArray :=
    argsFit_of_forall₂ (List.rel_append hown hvalues)
  rw [List.take_append_drop] at hargs
  have hcheck : checkArgs art.paramTypes flat = .ok () :=
    checkArgs_eq_ok_iff.mpr (hflat.imp fun _ _ hfit => hfit.ty)
  have hownLength : (flat.drop art.valueCount).length = declared := by
    rw [hown.length_eq, List.length_take, e.length_paramTypes, ← h.count,
      Nat.min_eq_left (Nat.le_add_right _ _)]
  have hcall := h.call _ _ hownLength (hvalues.length_eq.trans hlen)
  rw [List.take_append_drop, hcheck] at hcall
  rw [hcall, h.returnType]
  exact Form.eval_delivers hargs f .nil h.typed hconsts

/-- Lowering is type sound: on a vector of values that fit the parameter types,
the code returns a value that fits the return type, or fails for a reason that
depends on the values of operands and not on their types. -/
theorem call_type_sound {e : Lambda} {declared : Nat} {art : Artifact}
    (h : e.lower declared = .ok art) (hconsts : ∀ v ∈ e.constants, v.uniform = true)
    {flat : List Value} (hflat : List.Forall₂ Value.Fits flat art.paramTypes) :
    (∃ v, art.call flat = .ok v ∧ v.Fits art.returnType) ∨
      ∃ cause : EvalError, art.call flat = .error (.error cause) ∧ cause.byValue = true := by
  obtain ⟨f, hrun⟩ := Lambda.lower_runs h
  rw [Lambda.constants, hrun.form] at hconsts
  exact (hrun.delivers_call hconsts hflat).cases

theorem call_type_sound_rebinding : ∃ art, Lambda.rebinding.lower 1 = .ok art ∧
    art.paramTypes = [.list .int, .int] ∧
    ((∃ v, art.call [.list .int [.int 3], .int 4] = .ok v ∧ v.Fits art.returnType) ∨
      ∃ cause : EvalError, art.call [.list .int [.int 3], .int 4] = .error (.error cause) ∧
        cause.byValue = true) := by
  obtain ⟨art, hlower, hparams⟩ : ∃ art, Lambda.rebinding.lower 1 = .ok art ∧
      art.paramTypes = [.list .int, .int] := ⟨_, rfl, rfl⟩
  refine ⟨art, hlower, hparams, call_type_sound hlower (by decide) ?_⟩
  rw [hparams]
  exact .cons ⟨rfl, rfl⟩ (.cons ⟨rfl, rfl⟩ .nil)

end Artifact

/-! ### Evaluation is interpretation -/

namespace Lambda

/-- The artifact of an expression runs the form of its skeleton. -/
theorem build_ok {e : Lambda} {art : Artifact} {values : List Value}
    (h : e.build = .ok (art, values)) :
    ∃ f, e.HasForm f ∧ values = f.consts ∧
      art.Runs (f.skeleton e.params) e.arity (f.hole e.arity) := by
  rw [build] at h
  cases hx : e.extract with
  | error fault =>
    rw [hx] at h
    cases h
  | ok x =>
    obtain ⟨f, hf, rfl⟩ := extract_ok hx
    simp only [hx] at h
    cases hlower : (f.skeleton e.params).lower e.arity with
    | error fault =>
      rw [hlower] at h
      cases h
    | ok art' =>
      rw [hlower] at h
      cases h
      exact ⟨f, hf, rfl, lower_runs_of_form hlower (f.form?_skeleton e.params)⟩

variable {e : Lambda} {f g : Form Value} {art : Artifact}

theorem vector_types (h : art.Runs (f.skeleton e.params) e.arity g) :
    art.paramTypes = f.consts.map Value.ty ++ e.paramTypes := by
  rw [h.paramTypes, paramTypes_skeleton, List.drop_left' e.length_paramTypes,
    List.take_left' e.length_paramTypes]

theorem length_consts_eq (h : art.Runs (f.skeleton e.params) e.arity g) :
    f.consts.length = art.valueCount := by
  have hsize := arity_skeleton e f
  rw [← h.count] at hsize
  omega

/-- Running the skeleton on the constants as further arguments is interpreting the
expression, and ends with a value or with an error of the language. -/
theorem eval_skeleton (hf : e.HasForm f)
    (htyped : (f.hole e.arity).WellTyped (f.skeleton e.params).paramTypes [])
    (hconsts : ∀ v ∈ f.consts, v.uniform = true) {args : List Value}
    (hargs : List.Forall₂ Value.Fits args e.paramTypes) :
    ∃ r : Except EvalError Value, f.eval .asking args.toArray [] = Stop.lift r ∧
      (f.hole e.arity).eval .passing (args ++ f.consts).toArray [] = Stop.lift r := by
  have hlen : args.length = e.arity := hargs.length_eq.trans e.length_paramTypes
  have hfit : ArgsFit (e.paramTypes ++ f.consts.map Value.ty) (args ++ f.consts).toArray :=
    argsFit_of_forall₂ (List.rel_append hargs (Value.forall₂_fits_self hconsts))
  rw [← paramTypes_skeleton] at hfit
  have hnone : ∀ v ∈ (f.hole e.arity : Form Value).consts, v.uniform = true := by
    rw [Form.consts_hole]
    exact List.forall_mem_nil _
  -- a hole past the parameters reads the constant that it stands for
  have hsame := Form.eval_asking_eq_passing hfit _ .nil htyped hnone
  rw [Form.eval_hole_append .asking hf.proper hlen] at hsame
  have hdelivers := Form.eval_delivers hfit _ .nil htyped hnone
  rcases hdelivers.cases with ⟨v, hv, -⟩ | ⟨cause, hcause, -⟩
  · exact ⟨.ok v, hsame.trans hv, hv⟩
  · exact ⟨.error cause, hsame.trans hcause, hcause⟩

/-- On its constants and as many arguments as it has parameters, the artifact of an
expression comes to what the interpreter comes to. -/
theorem call_eq_interpret (hf : e.HasForm f)
    (hrun : art.Runs (f.skeleton e.params) e.arity (f.hole e.arity))
    (hconsts : ∀ v ∈ f.consts, v.uniform = true) {args : List Value}
    (hlen : args.length = e.arity) (hargs : ∀ v ∈ args, v.uniform = true) :
    ∃ r : Except EvalError Value,
      e.interpret args = Stop.lift r ∧ art.call (f.consts ++ args) = Stop.lift r := by
  have hcall := hrun.call args f.consts hlen (length_consts_eq hrun)
  rw [vector_types hrun, checkArgs_append _ (hlen.trans e.length_paramTypes.symm)] at hcall
  rw [interpret_eq hf, hcall]
  cases hcheck : checkArgs e.paramTypes args with
  | error cause => exact ⟨.error cause, rfl, rfl⟩
  | ok _ =>
    have hfit : List.Forall₂ Value.Fits args e.paramTypes :=
      ((List.forall₂_and_left args _).mpr ⟨hargs, checkArgs_eq_ok_iff.mp hcheck⟩).imp
        fun _ _ h => ⟨h.2, h.1⟩
    exact eval_skeleton hf hrun.typed hconsts hfit

end Lambda

/-- Cached evaluation is interpretation. After any session, an expression that
compiles evaluates to the value or the error of the interpreter, on arguments that
are uniform; on a wrong number of arguments it reports how many it takes. -/
theorem Compiler.evaluate_eq_interpret (calls : List Call) (e : Lambda) {handle : Handle}
    (hcompile : ((isolated.afterAll calls).compile e).1 = .ok handle)
    (hconsts : ∀ v ∈ e.constants, v.uniform = true) (args : List Value) :
    (args.length = e.arity → (∀ v ∈ args, v.uniform = true) →
      ∃ r : Except EvalError Value, e.interpret args = Stop.lift r ∧
        ((isolated.afterAll calls).evaluate e args).1
          = r.mapError fun cause => .evaluation (.error cause)) ∧
    (args.length ≠ e.arity →
      ((isolated.afterAll calls).evaluate e args).1 = .error (.arity e.arity args.length)) := by
  have hhonest := honest_afterAll calls
  have hbuild := (hhonest.compile e).2
  rw [hcompile] at hbuild
  obtain ⟨f, hf, hvalues, hrun⟩ := Lambda.build_ok hbuild.symm
  rw [Lambda.constants, hf.form] at hconsts
  have harity : handle.artifact.arity - handle.artifact.valueCount = e.arity := by
    rw [Artifact.arity, Lambda.vector_types hrun, List.length_append, List.length_map,
      Lambda.length_consts_eq hrun, Nat.add_sub_cancel_left, e.length_paramTypes]
  have hevaluate : ((isolated.afterAll calls).evaluate e args).1
      = handle.artifact.invoke f.consts args e.arity := by
    rw [hhonest.evaluate, Lambda.answer, ← hbuild, ← hvalues, ← harity]
    rfl
  rw [hevaluate, Artifact.invoke]
  constructor
  · intro hlen hargs
    obtain ⟨r, hinterpret, hcall⟩ := Lambda.call_eq_interpret hf hrun hconsts hlen hargs
    refine ⟨r, hinterpret, ?_⟩
    rw [if_pos hlen, hcall]
    cases r <;> rfl
  · intro hlen
    rw [if_neg hlen]

/-- The constants of the expression that was compiled first have no part in it. -/
theorem Compiler.evaluate_eq_interpret_rebinding : ∃ r : Except EvalError Value,
    Lambda.rebinding.interpret [.int 1, .list .int [.int 3, .int 4]] = Stop.lift r ∧
    ((isolated.afterAll [.compile .rebindingSpread]).evaluate .rebinding
        [.int 1, .list .int [.int 3, .int 4]]).1
      = r.mapError fun cause => .evaluation (.error cause) := by
  have hok : ((isolated.afterAll [.compile .rebindingSpread]).compile .rebinding).1.isOk = true := by
    decide +kernel
  cases hcompile : ((isolated.afterAll [.compile .rebindingSpread]).compile .rebinding).1 with
  | error fault =>
    rw [hcompile] at hok
    cases hok
  | ok handle => exact (evaluate_eq_interpret _ _ hcompile (by decide) _).1 rfl (by decide)

end Stencil
