import Stencil.Proofs.Handle
import Stencil.Proofs.Native

/-!
# Functions under a signature

A signature is compared with a compiled function once. After that the arguments are
data of the signature's types, and the result is read as data of its result type with
no further check. Nothing goes wrong in between (`Compiler.typed_call_eq_interpret`):
data is written as values that fit their types, so the code delivers a value that fits
the result type, and such a value can be read, down to the items of its lists.
-/

namespace Stencil

/-- Data of several types is written as values that fit them. -/
theorem Natives.fits_toValues (types : List Ty) (args : Natives types) :
    List.Forall₂ Value.Fits (toValues types args) types := by
  induction types with
  | nil => exact .nil
  | cons t ts ih =>
    obtain ⟨x, xs⟩ := args
    exact .cons (Native.fits_toValue t x) (ih xs)

namespace Handle

variable {handle : Handle} {e : Lambda}

/-- The signature of a compiled expression is what the expression declares. -/
theorem Describes.signature_eq_iff (h : handle.Describes e) (sig : Signature) :
    handle.signature = sig ↔ sig.args = e.paramTypes ∧ e.returnType? = some sig.result := by
  obtain ⟨args, result⟩ := sig
  rw [signature, h.paramTypes, h.returnType, Signature.mk.injEq, Option.some.injEq, eq_comm]

/-- A compiled expression on arguments that fit its parameters: it comes to the value of
the interpreter, which fits the return type, or to the failure of the interpreter, which
depends on values and not on types. -/
theorem call_fitting (hbuild : e.build = .ok (handle.artifact, handle.values))
    (hconsts : ∀ v ∈ e.constants, v.uniform = true) {args : List Value}
    (hargs : List.Forall₂ Value.Fits args e.paramTypes) :
    (∃ v, e.interpret args = .ok v ∧ handle.call args = .ok v ∧ v.Fits handle.returnType) ∨
      ∃ cause : EvalError, e.interpret args = .error (.error cause) ∧
        handle.call args = .error (.evaluation (.error cause)) ∧ cause.byValue = true := by
  have hd := describes_of_build hbuild
  obtain ⟨f, hf, hvalues, hrun⟩ := Lambda.build_ok hbuild
  rw [Lambda.constants, hf.form] at hconsts
  have hlen : args.length = e.arity := hargs.length_eq.trans e.length_paramTypes
  have huniform : ∀ v ∈ args, v.uniform = true :=
    ((List.forall₂_and_left args e.paramTypes).mp (hargs.imp fun _ _ h => ⟨h.uniform, h.ty⟩)).1
  obtain ⟨r, hinterpret, hcall⟩ := Lambda.call_eq_interpret hf hrun hconsts hlen huniform
  -- the constants stand in front of the arguments and fit their places
  have hflat : List.Forall₂ Value.Fits (f.consts ++ args) handle.artifact.paramTypes := by
    rw [Lambda.vector_types hrun]
    exact List.rel_append (Value.forall₂_fits_self hconsts) hargs
  have hdelivers := hrun.delivers_call (by rw [Form.consts_hole]; exact List.forall_mem_nil _) hflat
  rw [hd.call_of_eq hlen, hvalues, hinterpret, hcall]
  rw [hcall] at hdelivers
  cases r with
  | ok v => exact .inl ⟨v, rfl, rfl, hdelivers⟩
  | error cause => exact .inr ⟨cause, rfl, rfl, hdelivers⟩

theorem typed_eq_ok_iff {sig : Signature} {f : TypedHandle sig} :
    handle.typed sig = .ok f ↔ handle.signature = sig ∧ f.handle = handle := by
  obtain ⟨h, hf⟩ := f
  unfold typed
  by_cases hsig : handle.signature = sig
  · simp [hsig, eq_comm]
  · simp [hsig]

end Handle

/-- A value that fits the result type is read as data of it. -/
theorem TypedHandle.call_of_ok {sig : Signature} {f : TypedHandle sig} {args : Natives sig.args}
    {v : Value} (hcall : f.handle.call (Natives.toValues sig.args args) = .ok v)
    (hfit : v.Fits sig.result) :
    ∃ x, Native.ofValue? sig.result v = some x ∧ f.call args = .ok x := by
  obtain ⟨x, hx, -⟩ := Native.exists_of_fits hfit
  refine ⟨x, hx, ?_⟩
  simp only [call, hcall, bind, Except.bind, hx, pure, Except.pure]

namespace Compiler

theorem compileTyped_of_compile {σ : Type} {c : Compiler σ} {e : Lambda} {handle : Handle}
    (h : (c.compile e).1 = .ok handle) (sig : Signature) :
    (c.compileTyped e sig).1 = handle.typed sig := by
  show (c.compile e).1.bind (fun h => h.typed sig) = _
  rw [h]
  rfl

/-- A typed function never fails on types. After any session, an expression that
compiles can be had under exactly the signature that it declares; and then a call with
data of the argument types returns what is read off the interpreter's value, or fails
as the interpreter does, for a reason that depends on values and not on types. -/
theorem typed_call_eq_interpret (calls : List Call) (e : Lambda) {handle : Handle}
    (hcompile : ((isolated.afterAll calls).compile e).1 = .ok handle)
    (hconsts : ∀ v ∈ e.constants, v.uniform = true) (sig : Signature) :
    ((∃ f, ((isolated.afterAll calls).compileTyped e sig).1 = .ok f) ↔
      sig.args = e.paramTypes ∧ e.returnType? = some sig.result) ∧
    ∀ f, ((isolated.afterAll calls).compileTyped e sig).1 = .ok f → ∀ args : Natives sig.args,
      (∃ v x, e.interpret (Natives.toValues sig.args args) = .ok v ∧
        Native.ofValue? sig.result v = some x ∧ f.call args = .ok x) ∨
      ∃ cause : EvalError, e.interpret (Natives.toValues sig.args args) = .error (.error cause) ∧
        f.call args = .error (.evaluation (.error cause)) ∧ cause.byValue = true := by
  have hbuild := ((honest_afterAll calls).compile e).2
  rw [hcompile] at hbuild
  have hd : handle.Describes e := Handle.describes_of_build hbuild.symm
  rw [compileTyped_of_compile hcompile, ← hd.signature_eq_iff sig]
  constructor
  · constructor
    · rintro ⟨f, hf⟩
      exact (Handle.typed_eq_ok_iff.mp hf).1
    · intro hsig
      exact ⟨⟨handle, hsig⟩, Handle.typed_eq_ok_iff.mpr ⟨hsig, rfl⟩⟩
  · intro f hf args
    obtain ⟨hsig, rfl⟩ := Handle.typed_eq_ok_iff.mp hf
    have hargs : List.Forall₂ Value.Fits (Natives.toValues sig.args args) e.paramTypes := by
      rw [← ((hd.signature_eq_iff sig).mp hsig).1]
      exact Natives.fits_toValues sig.args args
    rcases Handle.call_fitting hbuild.symm hconsts hargs with
      ⟨v, hinterpret, hcall, hfit⟩ | ⟨cause, hinterpret, hcall, hcause⟩
    · have hresult : v.Fits sig.result := by
        rw [← hsig]
        exact hfit
      obtain ⟨x, hx, hanswer⟩ := TypedHandle.call_of_ok hcall hresult
      exact .inl ⟨v, x, hinterpret, hx, hanswer⟩
    · refine .inr ⟨cause, hinterpret, ?_, hcause⟩
      rw [TypedHandle.call, hcall]
      rfl

end Compiler

/-- `xs ++ [[], [1]]` for lists of lists of integers. -/
def Lambda.padded : Lambda where
  params := [⟨"xs", .list (.list .int)⟩]
  arena :=
    { nodes := #[⟨.param 0, .list (.list .int)⟩,
        ⟨.const (.list (.list .int) [.list .int [], .list .int [.int 1]]), .list (.list .int)⟩,
        ⟨.binary .add 0 1, .list (.list .int)⟩]
      table := #[] }
  root := 2

/-- A request under a wrong signature has left the shape in the cache. One under the
right signature then gets a function, one under another result type does not. -/
theorem Compiler.typed_call_eq_interpret_padded :
    (∀ f, ((isolated.afterAll [.compileTyped .padded ⟨[.int], .int⟩]).compileTyped .padded
      ⟨[.list (.list .int)], .list .int⟩).1 ≠ .ok f) ∧
    ∃ f, ((isolated.afterAll [.compileTyped .padded ⟨[.int], .int⟩]).compileTyped .padded
        ⟨[.list (.list .int)], .list (.list .int)⟩).1 = .ok f ∧
      f.call ([[5]], ()) = .ok [[5], [], [1]] := by
  have hok : ((isolated.afterAll [.compileTyped .padded ⟨[.int], .int⟩]).compile .padded).1.isOk
      = true := by
    decide +kernel
  cases hcompile : ((isolated.afterAll [.compileTyped .padded ⟨[.int], .int⟩]).compile .padded).1 with
  | error fault =>
    rw [hcompile] at hok
    cases hok
  | ok handle =>
    have htyped := typed_call_eq_interpret _ .padded hcompile (by decide)
    constructor
    · intro f hf
      obtain ⟨-, hresult⟩ := (htyped ⟨[.list (.list .int)], .list .int⟩).1.mp ⟨f, hf⟩
      cases hresult
    · obtain ⟨hiff, hcalls⟩ := htyped ⟨[.list (.list .int)], .list (.list .int)⟩
      obtain ⟨f, hf⟩ := hiff.mpr ⟨rfl, rfl⟩
      refine ⟨f, hf, ?_⟩
      rcases hcalls f hf ([[5]], ()) with ⟨v, x, hv, hx, hcall⟩ | ⟨cause, hcause, -, -⟩
      · cases hv
        cases hx
        exact hcall
      · cases hcause

end Stencil
