import Stencil.Proofs.Typing

/-!
# The tables say what the operators do

Which types an operator takes is written down twice: once as a table that lowering asks
(`BinaryOp.accepts`, `UnaryOp.accepts`, `Builtin.rejects?`), and once in the operator,
which looks at the values that it is given and refuses those that it cannot use. The two
coincide (`tables_exact`). What the table accepts is never refused, and has the type that
the table gives; what it does not accept is refused on all values of the types.

`Judged` says this of one application. That accepted operands deliver the result type is
known from `BinaryOp.delivers_apply` and its siblings, for values that are uniform. Lists
are the only values that may not be, so they are looked at again here.
-/

namespace Stencil

/-! ### Refusals -/

/-- The kinds of operations that are applied to values. -/
inductive Operation where
  | binary
  | unary
  | builtin
deriving DecidableEq

/-- The operation that refused its operands for what they are, if that is the cause. -/
def EvalError.refusedBy? : EvalError → Option Operation
  | invalidBinary _ _ | operandMismatch _ _ => some .binary
  | invalidUnary _ _ => some .unary
  | invalidArgument _ _ => some .builtin
  | _ => none

theorem EvalError.refusedBy?_of_byValue {cause : EvalError} (h : cause.byValue = true) :
    cause.refusedBy? = none := by
  cases cause with
  | divisionByZero | moduloByZero | overflow _ | floatOutOfRange _ | indexOutOfBounds _ _ => rfl
  | _ => cases h

/-- The operation fails because it refuses its operands. -/
def Refused (operation : Operation) (r : Except EvalError Value) : Prop :=
  ∃ cause, r = .error cause ∧ cause.refusedBy? = some operation

/-- An operation on operands comes out as a table says that accepts them or does not, and
that gives the type of the result. -/
structure Judged (operation : Operation) (accepted : Bool) (result : Ty) (operands : List Value)
    (r : Except EvalError Value) : Prop where
  /-- Accepted operands are not refused. -/
  applies : accepted = true → ∀ cause, r = .error cause → cause.refusedBy? = none
  /-- A result is of the type, and so are the items of its lists if that goes for the
  operands. -/
  typed : accepted = true → ∀ v, r = .ok v →
    v.ty = result ∧ ((∀ w ∈ operands, w.uniform = true) → v.uniform = true)
  /-- Other operands are refused, whatever their values. -/
  refuses : accepted = false → Refused operation r

namespace Judged

variable {operation : Operation} {result : Ty} {operands : List Value}

theorem of_delivers {r : Except EvalError Value} (h : Delivers result (Stop.lift r)) :
    Judged operation true result operands r where
  applies := by
    intro _ cause hr
    rw [hr] at h
    exact EvalError.refusedBy?_of_byValue h
  typed := by
    intro _ v hr
    rw [hr] at h
    have hfits : v.Fits result := h
    exact ⟨hfits.ty, fun _ => hfits.uniform⟩
  refuses := nofun

theorem of_ok {v : Value} (hty : v.ty = result)
    (huniform : (∀ w ∈ operands, w.uniform = true) → v.uniform = true) :
    Judged operation true result operands (.ok v) where
  applies := nofun
  typed := by
    intro _ w hr
    cases hr
    exact ⟨hty, huniform⟩
  refuses := nofun

theorem of_refused {r : Except EvalError Value} (h : Refused operation r) :
    Judged operation false result operands r where
  applies := nofun
  typed := nofun
  refuses _ := h

end Judged

/-! ### Values by their types -/

namespace Value

/-- Only a list can fail to be what its type says. -/
theorem fits_of_ty {v : Value} {t : Ty} (h : v.ty = t) (ht : t.isList = false) : v.Fits t := by
  refine ⟨h, ?_⟩
  cases v with
  | list elem items =>
    rw [← h] at ht
    cases ht
  | _ => rfl

theorem exists_list_of_ty {v : Value} {elem : Ty} (h : v.ty = .list elem) :
    ∃ items, v = .list elem items := by
  cases v <;> cases h
  exact ⟨_, rfl⟩

end Value

theorem Ty.exists_elem_of_isList {t : Ty} (h : t.isList = true) : ∃ elem, t = .list elem := by
  cases t <;> cases h
  exact ⟨_, rfl⟩

/-! ### Binary operators -/

namespace BinaryOp

/-- What a list operator makes of lists of one type. -/
theorem judged_apply_list {op : BinaryOp} {elem : Ty}
    (h : op.accepts (.list elem) (.list elem) = true) (xs ys : List Value) :
    Judged .binary true (op.resultType (.list elem)) [.list elem xs, .list elem ys]
      (op.apply (.list elem xs) (.list elem ys)) := by
  cases op with
  | add =>
    have hadd : add.applyList elem xs elem ys = .ok (.list elem (xs ++ ys)) := by
      rw [applyList, if_pos rfl]
    show Judged _ _ _ _ (add.applyList elem xs elem ys)
    rw [hadd]
    refine .of_ok rfl ?_
    intro huniform
    have hxs := huniform _ List.mem_cons_self
    have hys := huniform _ (List.mem_cons_of_mem _ List.mem_cons_self)
    refine Value.allUniform_iff.mpr (List.forall_mem_append.mpr ⟨?_, ?_⟩)
    · exact Value.allUniform_iff.mp hxs
    · exact Value.allUniform_iff.mp hys
  | eq | ne => exact .of_ok rfl fun _ => rfl
  | _ => simp [accepts, Ty.isNumeric, Ty.isOrdered] at h

theorem apply_refuses {op : BinaryOp} {v w : Value} (hty : w.ty = v.ty)
    (h : op.accepts v.ty v.ty = false) : Refused .binary (op.apply v w) := by
  -- by the kind of the values, as each kind has operators of its own
  cases v with
  | int a =>
    cases w <;> cases hty
    cases op with
    | and | or => exact ⟨_, rfl, rfl⟩
    | _ => cases h
  | float x =>
    cases w <;> cases hty
    cases op with
    | and | or => exact ⟨_, rfl, rfl⟩
    | _ => cases h
  | bool b =>
    cases w <;> cases hty
    cases op with
    | eq | ne | and | or => cases h
    | _ => exact ⟨_, rfl, rfl⟩
  | str s =>
    cases w <;> cases hty
    cases op with
    | sub | mul | div | mod | and | or => exact ⟨_, rfl, rfl⟩
    | _ => cases h
  | unit =>
    cases w <;> cases hty
    cases op with
    | eq | ne => cases h
    | _ => exact ⟨_, rfl, rfl⟩
  | list elem xs =>
    cases w <;> cases hty
    cases op with
    | add | eq | ne => simp [accepts, Value.ty, Ty.isList] at h
    | _ => exact ⟨_, rfl, rfl⟩

theorem judged_apply (op : BinaryOp) {t : Ty} {v w : Value} (hv : v.ty = t) (hw : w.ty = t) :
    Judged .binary (op.accepts t t) (op.resultType t) [v, w] (op.apply v w) := by
  cases haccepts : op.accepts t t with
  | false =>
    refine .of_refused (apply_refuses (hw.trans hv.symm) ?_)
    rw [hv]
    exact haccepts
  | true =>
    -- the items of lists need not fit, so the lemma on fitting values is for scalars
    by_cases ht : t.isList = true
    · obtain ⟨elem, rfl⟩ := Ty.exists_elem_of_isList ht
      obtain ⟨xs, rfl⟩ := Value.exists_list_of_ty hv
      obtain ⟨ys, rfl⟩ := Value.exists_list_of_ty hw
      exact judged_apply_list haccepts xs ys
    · have hscalar : t.isList = false := Bool.eq_false_iff.mpr ht
      exact .of_delivers
        (delivers_apply haccepts (Value.fits_of_ty hv hscalar) (Value.fits_of_ty hw hscalar))

end BinaryOp

/-! ### Unary operators -/

namespace UnaryOp

theorem isList_eq_false {op : UnaryOp} {t : Ty} (h : op.accepts t = true) : t.isList = false := by
  cases t with
  | list elem => cases op <;> simp [accepts, Ty.isNumeric] at h
  | _ => rfl

theorem apply_refuses {op : UnaryOp} {v : Value} (h : op.accepts v.ty = false) :
    Refused .unary (op.apply v) := by
  cases op with
  | neg =>
    cases v with
    | int _ | float _ => cases h
    | _ => exact ⟨_, rfl, rfl⟩
  | not =>
    cases v with
    | bool _ => cases h
    | _ => exact ⟨_, rfl, rfl⟩

theorem judged_apply (op : UnaryOp) {t : Ty} {v : Value} (hv : v.ty = t) :
    Judged .unary (op.accepts t) (op.resultType t) [v] (op.apply v) := by
  cases haccepts : op.accepts t with
  | false =>
    refine .of_refused (apply_refuses ?_)
    rw [hv]
    exact haccepts
  | true =>
    exact .of_delivers
      (delivers_apply haccepts (Value.fits_of_ty hv (isList_eq_false haccepts)))

end UnaryOp

/-! ### Builtins -/

namespace Builtin

theorem isNone_rejects?_one (f : Builtin) (t : Ty) :
    (f.rejects? [t]).isNone = f.accepts t := by
  unfold rejects?
  cases h : f.accepts t <;> simp [h]

theorem isNone_rejects?_two (f : Builtin) (t u : Ty) :
    (f.rejects? [t, u]).isNone = (f.accepts t && f.accepts u && decide (t = u)) := by
  unfold rejects?
  by_cases htu : t = u
  · subst htu
    cases ht : f.accepts t <;> simp [ht]
  · cases ht : f.accepts t <;> cases hu : f.accepts u <;> simp [ht, hu, htu]

/-- The length of a list has nothing to do with its items. -/
theorem delivers_apply_accepted {f : Builtin} (hf : f.arity = 1) {v : Value}
    (h : f.accepts v.ty = true) : Delivers (f.resultType (some v.ty)) (Stop.lift (f.apply [v])) := by
  by_cases ht : v.ty.isList = true
  · cases v with
    | list elem items =>
      cases f with
      | len =>
        rw [apply, if_neg (by simp [arity]), resultType]
        with_reducible exact delivers_checkedInt _ _
      | _ => simp [accepts, Value.ty, Ty.isNumeric, Ty.isOrdered] at h
    | _ => cases ht
  · exact delivers_apply_one hf h (Value.fits_of_ty rfl (Bool.eq_false_iff.mpr ht))

theorem apply_one_refuses {f : Builtin} (hf : f.arity = 1) {v : Value} (h : f.accepts v.ty = false) :
    Refused .builtin (f.apply [v]) := by
  cases f with
  | abs =>
    cases v with
    | int _ | float _ => cases h
    | _ => exact ⟨_, rfl, rfl⟩
  | len =>
    cases v with
    | str _ => cases h
    | list _ _ => simp [accepts, Value.ty, Ty.isList] at h
    | _ => exact ⟨_, rfl, rfl⟩
  | toFloat =>
    cases v with
    | int _ => cases h
    | _ => exact ⟨_, rfl, rfl⟩
  | toInt =>
    cases v with
    | float _ => cases h
    | _ => exact ⟨_, rfl, rfl⟩
  | min | max => cases hf

/-- Two values have a smaller one only if they are of one ordered type. -/
theorem extremum_refuses (f : Builtin) (smallest : Bool) {v w : Value}
    (h : (v.ty.isOrdered && w.ty.isOrdered && decide (v.ty = w.ty)) = false) :
    Refused .builtin (extremum f smallest v w) := by
  cases v with
  | int _ =>
    cases w with
    | int _ => cases h
    | _ => exact ⟨_, rfl, rfl⟩
  | float _ =>
    cases w with
    | float _ => cases h
    | _ => exact ⟨_, rfl, rfl⟩
  | str _ =>
    cases w with
    | str _ => cases h
    | _ => exact ⟨_, rfl, rfl⟩
  | _ => exact ⟨_, rfl, rfl⟩

theorem judged_apply_one {f : Builtin} (hf : f.arity = 1) (v : Value) :
    Judged .builtin (f.rejects? [v.ty]).isNone (f.resultType (some v.ty)) [v] (f.apply [v]) := by
  rw [isNone_rejects?_one]
  cases haccepts : f.accepts v.ty with
  | false => exact .of_refused (apply_one_refuses hf haccepts)
  | true => exact .of_delivers (delivers_apply_accepted hf haccepts)

theorem judged_extremum (f : Builtin) (smallest : Bool) (v w : Value) :
    Judged .builtin (v.ty.isOrdered && w.ty.isOrdered && decide (v.ty = w.ty)) v.ty [v, w]
      (extremum f smallest v w) := by
  cases haccepts : v.ty.isOrdered && w.ty.isOrdered && decide (v.ty = w.ty) with
  | false => exact .of_refused (extremum_refuses f smallest haccepts)
  | true =>
    simp only [Bool.and_eq_true, decide_eq_true_eq] at haccepts
    obtain ⟨⟨hordered, -⟩, hsame⟩ := haccepts
    have hscalar : v.ty.isList = false := by
      cases v with
      | list elem items => cases hordered
      | _ => rfl
    exact .of_delivers (delivers_extremum hordered smallest (Value.fits_of_ty rfl hscalar)
      (Value.fits_of_ty hsame.symm hscalar))

theorem judged_apply_two {f : Builtin} (hf : f.arity = 2) (v w : Value) :
    Judged .builtin (f.rejects? [v.ty, w.ty]).isNone (f.resultType (some v.ty)) [v, w]
      (f.apply [v, w]) := by
  rw [isNone_rejects?_two]
  cases f with
  | min => exact judged_extremum .min true v w
  | max => exact judged_extremum .max false v w
  | _ => cases hf

theorem judged_apply {f : Builtin} {vs : List Value} (hlen : vs.length = f.arity) :
    Judged .builtin (f.rejects? (vs.map Value.ty)).isNone (f.resultType (vs.map Value.ty).head?) vs
      (f.apply vs) := by
  match vs with
  | [] => cases f <;> cases hlen
  | [v] => exact judged_apply_one hlen.symm v
  | [v, w] => exact judged_apply_two hlen.symm v w
  | _ :: _ :: _ :: _ => cases f <;> simp [arity] at hlen

/-- Every type has a value, so a table that accepts too little would show. -/
theorem rejects?_eq_none_iff {f : Builtin} {ts : List Ty} (hlen : ts.length = f.arity) :
    f.rejects? ts = none ↔
      ∀ vs : List Value, vs.map Value.ty = ts → ¬ Refused .builtin (f.apply vs) := by
  constructor
  · intro hnone vs hvs
    rintro ⟨cause, hcause, hrefused⟩
    subst hvs
    rw [List.length_map] at hlen
    rw [(judged_apply hlen).applies (by rw [hnone]; rfl) cause hcause] at hrefused
    cases hrefused
  · intro hnever
    have hdefault : (ts.map Ty.default).map Value.ty = ts := by
      rw [List.map_map]
      exact List.map_id'' Ty.ty_default ts
    have hlength : (ts.map Ty.default).length = f.arity := by
      rw [List.length_map, hlen]
    have hjudged := judged_apply hlength
    rw [hdefault] at hjudged
    cases hrejects : f.rejects? ts with
    | none => rfl
    | some bad => exact absurd (hjudged.refuses (by rw [hrejects]; rfl)) (hnever _ hdefault)

end Builtin

/-- The tables are exact. A binary operator on two values of one type, a unary operator on
a value, and a builtin on as many values as it takes, of any types, refuse their operands
exactly if the table does not accept the types, and then always. What they return has the
type that the table gives. -/
theorem tables_exact :
    (∀ (op : BinaryOp) (t : Ty) (v w : Value), v.ty = t → w.ty = t →
      Judged .binary (op.accepts t t) (op.resultType t) [v, w] (op.apply v w)) ∧
    (∀ (op : UnaryOp) (t : Ty) (v : Value), v.ty = t →
      Judged .unary (op.accepts t) (op.resultType t) [v] (op.apply v)) ∧
    (∀ (f : Builtin) (ts : List Ty), ts.length = f.arity →
      (f.rejects? ts = none ↔
        ∀ vs : List Value, vs.map Value.ty = ts → ¬ Refused .builtin (f.apply vs)) ∧
      ∀ vs : List Value, vs.map Value.ty = ts →
        Judged .builtin (f.rejects? ts).isNone (f.resultType ts.head?) vs (f.apply vs)) := by
  refine ⟨?_, ?_, ?_⟩
  · intro op t v w hv hw
    exact op.judged_apply hv hw
  · intro op t v hv
    exact op.judged_apply hv
  · intro f ts hlen
    refine ⟨Builtin.rejects?_eq_none_iff hlen, ?_⟩
    intro vs hvs
    subst hvs
    rw [List.length_map] at hlen
    exact Builtin.judged_apply hlen

/-- On two types that differ the table of binary operators is not exact: lists of different
element types can be compared all the same. -/
example : BinaryOp.eq.accepts (.list .int) (.list .bool) = false ∧
    BinaryOp.eq.apply (.list .int []) (.list .bool []) = .ok (.bool false) := ⟨rfl, rfl⟩

end Stencil
