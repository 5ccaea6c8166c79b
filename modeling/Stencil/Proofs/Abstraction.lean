import Stencil.Proofs.Checking
import Stencil.Proofs.Handle
import Stencil.Proofs.Reinsertion

/-!
# Constants in place and constants as arguments

An expression can be used as it is, or as its skeleton with the constants handed
over as further arguments. It makes no difference to the interpreter
(`Lambda.interpret_skeleton`), and none to lowering: both are refused for one cause,
or both are lowered to code that does the same (`Lambda.lower_skeleton`). Neither
asks for an expression that is well typed, nor for arguments that are.

The evaluation of holes is known from `Form.eval_hole`. What is left are the checks
that come first. The arguments are checked against a longer list of types, whose
additional places always pass (`checkArgs_append_right`). And where lowering found a
constant of the type that its node records, it now finds a parameter that is declared
with that type, so that no fault comes or goes (`Form.check_hole`).
-/

namespace Stencil

/-! ### The check of arguments -/

theorem checkTypes_append_right {types : List Ty} {args : List Value}
    (hlen : args.length = types.length) (values : List Value) :
    checkTypes (types ++ values.map Value.ty) (args ++ values) = checkTypes types args := by
  induction types generalizing args with
  | nil =>
    have hnil : args = [] := List.length_eq_zero_iff.mp hlen
    rw [hnil]
    exact checkTypes_self values
  | cons t ts ih =>
    cases args with
    | nil => cases hlen
    | cons v vs =>
      have hrest : vs.length = ts.length := Nat.succ.inj hlen
      rw [List.cons_append, List.cons_append, checkTypes, checkTypes, ih hrest]

/-- Values behind the arguments, checked against their own types, never fail the check. -/
theorem checkArgs_append_right {types : List Ty} {args : List Value}
    (hlen : args.length = types.length) (values : List Value) :
    checkArgs (types ++ values.map Value.ty) (args ++ values) = checkArgs types args := by
  have hlen' : (args ++ values).length = (types ++ values.map Value.ty).length := by
    rw [List.length_append, List.length_append, List.length_map, hlen]
  rw [checkArgs, checkArgs, if_pos hlen, if_pos hlen', checkTypes_append_right hlen]

/-! ### The checks of lowering -/

namespace Form

variable {params types : List Ty}

theorem map_ty_holeAll (fs : List (Form Value)) (next : Nat) :
    (holeAll next fs : List (Form Value)).map ty = fs.map ty := by
  induction fs generalizing next with
  | nil => rfl
  | cons f fs ih => rw [holeAll, List.map_cons, List.map_cons, ty_hole, ih]

theorem length_holeAll (fs : List (Form Value)) (next : Nat) :
    (holeAll next fs : List (Form Value)).length = fs.length := by
  rw [← List.length_map (f := ty), map_ty_holeAll, List.length_map]

mutual

/-- The holes of a form are declared parameters of the types that the nodes of the
constants record, so the form with holes has the faults of the form. -/
theorem check_hole : (f : Form Value) → {slots : List Nat} → (scope : List (Nat × Ty)) →
    (next : Nat) → f.Proper params.length slots →
    f.consts.map Value.ty <+: (params ++ types).drop next →
    (f.hole next : Form Value).check (params ++ types) scope = f.check params scope
  | const t v, _, scope, next, hf, hc => by
    have hty : v.ty = t := hf
    obtain ⟨rest, hrest⟩ := hc
    have hget : (params ++ types)[next]? = some v.ty := by
      rw [← Nat.add_zero next, ← List.getElem?_drop, ← hrest]
      rfl
    rw [hole, check, check, hget]
    -- the causes differ, but neither is reported
    exact (require_of hty _).trans (require_of hty _).symm
  | param t i, _, scope, next, hf, _ => by
    have hi : i < params.length := hf
    rw [hole, check, check, List.getElem?_append_left hi, List.getElem?_eq_getElem hi]
  | localVar _ _, _, _, _, _, _ => by
    rw [hole, check, check]
  | unary t op x, _, scope, next, hf, hc => by
    rw [hole, check, check, check_hole x scope next hf hc, ty_hole]
  | binary t op l r, _, scope, next, hf, hc => by
    rw [consts, List.map_append] at hc
    obtain ⟨hl, hr⟩ := prefix_drop_of_append hc
    rw [List.length_map] at hr
    rw [hole, check, check, check_hole l scope next hf.1 hl, check_hole r scope _ hf.2 hr, ty_hole,
      ty_hole]
  | ite t c x y, _, scope, next, hf, hc => by
    rw [consts, List.map_append, List.map_append] at hc
    obtain ⟨hb, hxy⟩ := prefix_drop_of_append hc
    obtain ⟨hx, hy⟩ := prefix_drop_of_append hxy
    rw [List.length_map] at hx hy
    rw [List.length_map] at hy
    rw [hole, check, check, check_hole c scope next hf.1 hb, check_hole x scope _ hf.2.1 hx,
      check_hole y scope _ hf.2.2 hy, ty_hole, ty_hole, ty_hole]
  | letIn t slot i b, _, scope, next, hf, hc => by
    rw [consts, List.map_append] at hc
    obtain ⟨hi, hb⟩ := prefix_drop_of_append hc
    rw [List.length_map] at hb
    rw [hole, check, check, check_hole i scope next hf.1 hi, ty_hole, ty_hole,
      check_hole b ((slot, i.ty) :: scope) _ hf.2 hb]
  | list t xs, _, scope, next, hf, hc => by
    rw [hole, check, check]
    cases t.elem? with
    | none => rfl
    | some elem => exact checkAll_holeAll (some elem) xs scope next hf hc
  | index t r i, _, scope, next, hf, hc => by
    rw [consts, List.map_append] at hc
    obtain ⟨hr, hi⟩ := prefix_drop_of_append hc
    rw [List.length_map] at hi
    rw [hole, check, check, check_hole r scope next hf.1 hr, check_hole i scope _ hf.2 hi, ty_hole,
      ty_hole]
  | call t b xs, _, scope, next, hf, hc => by
    rw [hole, check, check, checkAll_holeAll none xs scope next hf hc, length_holeAll,
      map_ty_holeAll]

theorem checkAll_holeAll (elem : Option Ty) : (fs : List (Form Value)) → {slots : List Nat} →
    (scope : List (Nat × Ty)) → (next : Nat) → AllProper params.length slots fs →
    (constsAll fs).map Value.ty <+: (params ++ types).drop next →
    checkAll (params ++ types) scope elem (holeAll next fs) = checkAll params scope elem fs
  | [], _, _, _, _, _ => by
    rw [holeAll, checkAll, checkAll]
  | x :: xs, _, scope, next, hf, hc => by
    rw [constsAll, List.map_append] at hc
    obtain ⟨hx, hxs⟩ := prefix_drop_of_append hc
    rw [List.length_map] at hxs
    rw [holeAll, checkAll, checkAll, check_hole x scope next hf.1 hx, ty_hole,
      checkAll_holeAll elem xs scope _ hf.2 hxs]

end

end Form

/-! ### Expressions and their skeletons -/

namespace Lambda

variable {e : Lambda} {f : Form Value}

/-- The interpreter ends within the language on well-formed expressions. -/
theorem interpret_settles (hf : e.HasForm f) (args : List Value) : Settles (e.interpret args) := by
  rw [interpret_eq hf]
  exact (Settles.lift _).bind fun _ => f.eval_settles Combine.settles_asking []

/-- Extraction preserves meaning: on its constants as further arguments, the skeleton
of an expression evaluates to the value or the error of the expression. -/
theorem interpret_skeleton {x : Extracted} (h : e.extract = .ok x) {args : List Value}
    (hlen : args.length = e.arity) :
    ∃ r : Except EvalError Value, e.interpret args = Stop.lift r ∧
      x.skeleton.interpret (args ++ x.values) = Stop.lift r := by
  obtain ⟨f, hf, rfl⟩ := extract_ok h
  obtain ⟨r, hr⟩ := interpret_settles hf args
  have htypes : args.length = e.paramTypes.length := hlen.trans e.length_paramTypes.symm
  have hsame : (f.skeleton e.params).interpret (args ++ f.consts) = e.interpret args := by
    rw [interpret_eq hf.skeleton, interpret_eq hf, paramTypes_skeleton,
      checkArgs_append_right htypes, Form.eval_hole_append .asking hf.proper hlen]
  exact ⟨r, hr, hsame.trans hr⟩

/-- `[n, "two"][n + 1]`, with a text in a list of integers. -/
def mixed : Lambda where
  params := [⟨"n", .int⟩]
  arena :=
    { nodes := #[⟨.param 0, .int⟩, ⟨.const (.str "two"), .str⟩, ⟨.list ⟨0, 2⟩, .list .int⟩,
        ⟨.const (.int 1), .int⟩, ⟨.binary .add 0 3, .int⟩, ⟨.index 2 4, .int⟩]
      table := #[0, 1] }
  root := 5

theorem interpret_skeleton_mixed : ∃ x, mixed.extract = .ok x ∧
    x.values = [.str "two", .int 1] ∧ mixed.interpret [.int 0] = .ok (.str "two") ∧
    x.skeleton.interpret [.int 0, .str "two", .int 1] = .ok (.str "two") := by
  obtain ⟨r, hr, hskeleton⟩ :=
    interpret_skeleton (e := mixed) rfl (show [Value.int 0].length = _ from rfl)
  have hvalue : mixed.interpret [.int 0] = .ok (.str "two") := by decide +kernel
  refine ⟨_, rfl, rfl, hvalue, ?_⟩
  exact hskeleton.trans (hr.symm.trans hvalue)

theorem check_skeleton (hf : e.HasForm f) :
    (f.hole e.arity : Form Value).check (f.skeleton e.params).paramTypes []
      = f.check e.paramTypes [] := by
  have hproper : f.Proper e.paramTypes.length [] := by
    rw [length_paramTypes]
    exact hf.proper
  have hholes : f.consts.map Value.ty <+: (e.paramTypes ++ f.consts.map Value.ty).drop e.arity :=
    ⟨[], by rw [List.append_nil, List.drop_left' e.length_paramTypes]⟩
  rw [paramTypes_skeleton]
  exact f.check_hole [] e.arity hproper hholes

/-- Code with the constants in place and code that is handed them do the same, on
any arguments. -/
theorem call_skeleton (hf : e.HasForm f) {direct art : Artifact} (hdirect : direct.Runs e e.arity f)
    (hart : art.Runs (f.skeleton e.params) e.arity (f.hole e.arity)) {args : List Value}
    (hlen : args.length = e.arity) :
    ∃ r : Except EvalError Value, direct.call args = Stop.lift r ∧
      art.call (f.consts ++ args) = Stop.lift r := by
  have hcall := hdirect.call_eq hlen
  have hcall' := hart.call args f.consts hlen (length_consts_eq hart)
  rw [vector_types hart, checkArgs_append _ (hlen.trans e.length_paramTypes.symm),
    Form.eval_hole_append .passing hf.proper hlen] at hcall'
  have hsettles : Settles (direct.call args) := by
    rw [hcall]
    exact (Settles.lift _).bind fun _ => f.eval_settles Combine.settles_passing []
  obtain ⟨r, hr⟩ := hsettles
  exact ⟨r, hr, hcall'.trans (hcall.symm.trans hr)⟩

/-- Lowering an expression with its constants in place is lowering its skeleton. Both
are refused for one cause; or both are lowered, with the same return type and with
the types of the constants before those of the parameters, and on its constants and
any arguments the code of the skeleton comes to what the other code comes to. -/
theorem lower_skeleton {x : Extracted} (h : e.extract = .ok x) :
    (∃ cause node node', e.lower e.arity = .error ⟨node, cause⟩ ∧
      x.skeleton.lower e.arity = .error ⟨node', cause⟩) ∨
    ∃ direct art, e.lower e.arity = .ok direct ∧ x.skeleton.lower e.arity = .ok art ∧
      art.returnType = direct.returnType ∧
      art.paramTypes = x.values.map Value.ty ++ direct.paramTypes ∧
      ∀ args : List Value, args.length = e.arity →
        ∃ r : Except EvalError Value, direct.call args = Stop.lift r ∧
          art.call (x.values ++ args) = Stop.lift r := by
  obtain ⟨f, hf, rfl⟩ := extract_ok h
  have hle : e.arity ≤ (f.skeleton e.params).arity := by
    rw [arity_skeleton]
    exact Nat.le_add_right _ _
  have hdirect := lower_verdict hf.form (Nat.le_refl e.arity)
  have hskeleton := lower_verdict (f.form?_skeleton e.params) hle
  -- one check decides both
  rw [← arity, check_skeleton hf] at hskeleton
  cases hcheck : f.check e.paramTypes [] with
  | error cause =>
    rw [hcheck] at hdirect hskeleton
    obtain ⟨node, hnode⟩ := hdirect
    obtain ⟨node', hnode'⟩ := hskeleton
    exact .inl ⟨cause, node, node', hnode, hnode'⟩
  | ok _ =>
    rw [hcheck] at hdirect hskeleton
    have hruns := lower_runs_of_form hdirect hf.form
    have hruns' := lower_runs_of_form hskeleton (f.form?_skeleton e.params)
    refine .inr ⟨_, _, hdirect, hskeleton, f.ty_hole e.arity, ?_, ?_⟩
    · rw [vector_types hruns', hruns.paramTypes_eq]
    · intro args hlen
      exact call_skeleton hf hruns hruns' hlen

theorem lower_skeleton_twos : ∃ x direct art, twos.extract = .ok x ∧ twos.lower 1 = .ok direct ∧
    x.skeleton.lower 1 = .ok art ∧ art.paramTypes = [.int, .int, .int, .int] ∧
    art.call [.int 2, .int 2, .int 2, .int 4] = .ok (.int 4) ∧
    art.call [.int 2, .int 2, .int 2, .bool true]
      = .error (.error (.typeMismatch .int .bool)) := by
  obtain ⟨own, hown, hfour, hbool⟩ : ∃ own, twos.lower 1 = .ok own ∧
      own.call [.int 4] = .ok (.int 4) ∧
      own.call [.bool true] = .error (.error (.typeMismatch .int .bool)) :=
    ⟨_, rfl, by decide +kernel, rfl⟩
  rcases lower_skeleton (e := twos) rfl with
    ⟨_, _, _, hfails, -⟩ | ⟨direct, art, hd, ha, -, hp, hcall⟩
  · cases hfails
  · obtain rfl : own = direct := Except.ok.inj (hown.symm.trans hd)
    obtain ⟨r, hr, hart⟩ := hcall [.int 4] rfl
    obtain ⟨s, hs, hart'⟩ := hcall [.bool true] rfl
    refine ⟨_, own, art, rfl, hown, ha, ?_, hart.trans (hr.symm.trans hfour),
      hart'.trans (hs.symm.trans hbool)⟩
    cases hown
    exact hp

/-- Of the two, neither is lowered if the list is not what its node says. -/
example : ∃ x, mixed.extract = .ok x ∧
    mixed.lower 1 = .error ⟨2, .listElement .int .str⟩ ∧
    x.skeleton.lower 1 = .error ⟨2, .listElement .int .str⟩ :=
  ⟨_, rfl, rfl, rfl⟩

end Lambda

end Stencil
