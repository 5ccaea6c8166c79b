import Stencil.Proofs.Abstraction
import Stencil.Proofs.Agreement

/-!
# Two checks of one expression

Extraction and lowering both check the expression that they are given, each in its
own way. Extraction looks at references and at the types of constants. Lowering makes
these checks too, among those of all other types: it accepts nothing that extraction
refuses, and what extraction has accepted it refuses for a type error only
(`Lambda.lower_refuses_for_types`).

The first half is `Form.WellTyped.proper`. The second is about the check of a form,
as lowering follows that (`Lambda.lower_verdict`): on a proper form the faults of
references do not arise (`Form.check_failsForTypes`). Since a compiler lowers skeletons
only, and these have proper forms, it never reports such a fault as one of lowering.
-/

namespace Stencil

/-- Whether the cause is a type error. The others are faults of the arena or of the
call, and constants whose value does not have the recorded type. -/
def CompileCause.isTypeError : CompileCause → Bool
  | declaredArity _ _ | danglingNode _ | danglingList | unboundParam _ _ | unboundLocal _
  | constTypeMismatch _ _ => false
  | _ => true

/-- The check passes or finds a type error. -/
def FailsForTypes (checked : Except CompileCause Unit) : Prop :=
  ∀ cause, checked = .error cause → cause.isTypeError = true

namespace FailsForTypes

variable {checked checked' : Except CompileCause Unit} {cause : CompileCause}

theorem ok : FailsForTypes (.ok ()) := by
  intro cause h
  cases h

theorem error (hcause : cause.isTypeError = true) : FailsForTypes (.error cause) := by
  intro cause' h
  cases h
  exact hcause

theorem bind (h : FailsForTypes checked) (h' : FailsForTypes checked') :
    FailsForTypes (checked >>= fun _ => checked') := by
  cases checked with
  | ok _ => exact h'
  | error cause => exact .error (h cause rfl)

theorem require {p : Prop} [Decidable p] (hcause : cause.isTypeError = true) :
    FailsForTypes (require p cause) := by
  unfold Stencil.require
  by_cases hp : p
  · rw [if_pos hp]
    exact .ok
  · rw [if_neg hp]
    exact .error hcause

theorem requireItem (elem : Option Ty) (found : Ty) : FailsForTypes (requireItem elem found) := by
  cases elem with
  | none => exact .ok
  | some expected => exact .require rfl

end FailsForTypes

theorem exists_slotType {scope : List (Nat × Ty)} {slot : Nat} (h : slot ∈ scope.map Prod.fst) :
    ∃ t, slotType scope slot = some t := by
  obtain ⟨binding, hmem, hslot⟩ := List.mem_map.mp h
  have hfind : (scope.find? fun b => b.1 = slot).isSome = true :=
    List.find?_isSome.mpr ⟨binding, hmem, decide_eq_true hslot⟩
  obtain ⟨found, hfound⟩ := Option.isSome_iff_exists.mp hfind
  exact ⟨found.2, Option.map_eq_some_iff.mpr ⟨found, hfound, rfl⟩⟩

namespace Form

variable {params : List Ty}

mutual

/-- On a proper form nothing but the types can be wrong. -/
theorem check_failsForTypes : (f : Form Value) → {scope : List (Nat × Ty)} →
    f.Proper params.length (scope.map Prod.fst) → FailsForTypes (f.check params scope)
  | const t v, _, hf => by
    have hty : v.ty = t := hf
    rw [check, require_of hty]
    exact .ok
  | param t i, _, hf => by
    rw [check, List.getElem?_eq_getElem hf]
    exact .require rfl
  | localVar t slot, _, hf => by
    obtain ⟨found, hfound⟩ := exists_slotType hf
    rw [check, hfound]
    exact .require rfl
  | unary t op x, _, hf => by
    rw [check]
    exact (check_failsForTypes x hf).bind (.bind (.require rfl) (.require rfl))
  | binary t op l r, _, hf => by
    rw [check]
    refine (check_failsForTypes l hf.1).bind ((check_failsForTypes r hf.2).bind ?_)
    exact .bind (.require rfl) (.require rfl)
  | ite t c x y, _, hf => by
    rw [check]
    refine (check_failsForTypes c hf.1).bind ((check_failsForTypes x hf.2.1).bind ?_)
    refine (check_failsForTypes y hf.2.2).bind ?_
    exact .bind (.require rfl) (.bind (.require rfl) (.require rfl))
  | letIn t slot i b, scope, hf => by
    rw [check]
    -- the scopes of the two checks grow together
    have hb : b.Proper params.length (((slot, i.ty) :: scope).map Prod.fst) := hf.2
    exact (check_failsForTypes i hf.1).bind ((check_failsForTypes b hb).bind (.require rfl))
  | list t xs, _, hf => by
    rw [check]
    cases t.elem? with
    | none => exact .error rfl
    | some elem => exact checkAll_failsForTypes xs (some elem) hf
  | index t r i, _, hf => by
    rw [check]
    refine (check_failsForTypes r hf.1).bind ((check_failsForTypes i hf.2).bind ?_)
    cases r.ty.elem? with
    | none => exact .error rfl
    | some elem => exact .bind (.require rfl) (.require rfl)
  | call t f xs, _, hf => by
    rw [check]
    refine .bind (.require rfl) ((checkAll_failsForTypes xs none hf).bind ?_)
    cases f.rejects? (xs.map ty) with
    | none => exact .require rfl
    | some found => exact .error rfl

theorem checkAll_failsForTypes : (fs : List (Form Value)) → {scope : List (Nat × Ty)} →
    (elem : Option Ty) → AllProper params.length (scope.map Prod.fst) fs →
    FailsForTypes (checkAll params scope elem fs)
  | [], _, _, _ => .ok
  | x :: xs, _, elem, hf => by
    rw [checkAll]
    refine (check_failsForTypes x hf.1).bind (.bind (.requireItem elem x.ty) ?_)
    exact checkAll_failsForTypes xs elem hf.2

end

end Form

/-- A fault of lowering comes from the backend, which was given the skeleton. -/
theorem Compiler.compile_error {σ : Type} {c : Compiler σ} {e : Lambda} {fault : CompileError}
    (h : (c.compile e).1 = .error (.compile fault)) :
    ∃ f, e.HasForm f ∧
      (c.backend.lower (f.skeleton e.params) e.arity c.state).1 = .error fault := by
  rw [compile_eq] at h
  cases hx : e.extract with
  | error err => simp [hx] at h
  | ok x =>
    obtain ⟨f, hf, rfl⟩ := Lambda.extract_ok hx
    refine ⟨f, hf, ?_⟩
    cases hfind : c.cache.find? (.probe e) with
    | some built => simp [hx, hfind] at h
    | none =>
      simp only [hx, hfind] at h
      rcases hlower : c.backend.lower (f.skeleton e.params) e.arity c.state with ⟨result, state⟩
      rw [hlower] at h
      cases result with
      | ok art => cases h
      | error err =>
        cases h
        rfl

namespace Lambda

/-- A well-formed expression is refused for a type error only. -/
theorem HasForm.isTypeError_of_lower {e : Lambda} {f : Form Value} (hf : e.HasForm f)
    {declared : Nat} (hle : declared ≤ e.arity) {fault : CompileError}
    (h : e.lower declared = .error fault) : fault.cause.isTypeError = true := by
  have hproper : f.Proper e.paramTypes.length (([] : List (Nat × Ty)).map Prod.fst) := by
    rw [length_paramTypes]
    exact hf.proper
  exact Form.check_failsForTypes f hproper _ (check_of_lower_error hf.form hle h)

/-- What can be lowered can be extracted; what can be extracted is refused, if at
all, for a type error. So whatever is in its cache, a compiler that lowers with the
standard backend reports no other faults as faults of lowering. -/
theorem lower_refuses_for_types (e : Lambda) :
    (∀ declared, declared ≤ e.arity →
      (∀ art, e.lower declared = .ok art → ∃ x, e.extract = .ok x) ∧
      ∀ x fault, e.extract = .ok x → e.lower declared = .error fault →
        fault.cause.isTypeError = true) ∧
    ∀ c : Compiler Unit, c.backend = .standard → ∀ fault,
      (c.compile e).1 = .error (.compile fault) → fault.cause.isTypeError = true := by
  refine ⟨fun declared hle => ⟨?_, ?_⟩, ?_⟩
  · intro art hart
    obtain ⟨f, hruns⟩ := lower_runs hart
    exact ⟨_, extract_eq hruns.hasForm⟩
  · intro x fault hx hfault
    obtain ⟨f, hf, -⟩ := extract_ok hx
    exact hf.isTypeError_of_lower hle hfault
  · intro c hc fault hfault
    obtain ⟨f, hf, hlower⟩ := Compiler.compile_error hfault
    rw [hc] at hlower
    have hle : e.arity ≤ (f.skeleton e.params).arity := by
      rw [arity_skeleton]
      exact Nat.le_add_right _ _
    exact hf.skeleton.isTypeError_of_lower hle hlower

/-- `rebinding` is lowered, and `mixed` is extracted and then refused, both alone and
by a compiler. -/
theorem lower_refuses_for_types_mixed :
    ((∃ art, rebinding.lower 1 = .ok art) ∧ ∃ x, rebinding.extract = .ok x) ∧
    (∃ x fault, mixed.extract = .ok x ∧ mixed.lower 1 = .error fault ∧
      fault.cause.isTypeError = true) ∧
    ∃ fault, (Compiler.isolated.compile mixed).1 = .error (.compile fault) ∧
      fault.cause.isTypeError = true := by
  obtain ⟨hrebinding, -⟩ := lower_refuses_for_types rebinding
  obtain ⟨hmixed, hcompile⟩ := lower_refuses_for_types mixed
  refine ⟨⟨⟨_, rfl⟩, (hrebinding 1 (by decide)).1 _ rfl⟩, ?_, ?_⟩
  · exact ⟨_, _, rfl, rfl, (hmixed 1 (by decide)).2 _ _ rfl rfl⟩
  · exact ⟨_, rfl, hcompile .isolated rfl _ rfl⟩

end Lambda

end Stencil
