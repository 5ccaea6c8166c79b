import Stencil.Cache
import Stencil.Compiler.Error
import Stencil.Value.Native
import Stencil.Value.Text

/-!
# Compiled functions

A `Handle` is an expression ready to be called: the artifact of its shape and its own constants. A
`TypedHandle` is a handle that was checked against a signature once, so that it can be called with
data of the argument types instead of values.
-/

namespace Stencil

/-- Runs an artifact on constants and arguments, of which `declared` are expected. -/
def Artifact.invoke (art : Artifact) (values args : List Value) (declared : Nat) :
    Except Error Value :=
  if args.length = declared then (art.call (values ++ args)).mapError .evaluation
  else .error (.arity declared args.length)

/-- A compiled expression. -/
structure Handle where
  built : Built
  /-- The constants of the expression. -/
  values : List Value
deriving Inhabited

namespace Handle

def artifact (h : Handle) : Artifact := h.built.artifact

/-- How many arguments a call takes. -/
def arity (h : Handle) : Nat := h.artifact.arity - h.artifact.valueCount

/-- The types of the arguments. -/
def paramTypes (h : Handle) : List Ty := h.artifact.paramTypes.drop h.artifact.valueCount

def returnType (h : Handle) : Ty := h.artifact.returnType

def signature (h : Handle) : Signature := ⟨h.paramTypes, h.returnType⟩

def call (h : Handle) (args : List Value) : Except Error Value :=
  h.artifact.invoke h.values args h.arity

/-- Whether two handles run the very same artifact. -/
def sharesArtifact (h k : Handle) : Bool := h.built.serial == k.built.serial

def describe (h : Handle) : String :=
  "CompiledFn \x7b param_types: [" ++ Ty.listText h.paramTypes ++ "], return_type: "
    ++ h.returnType.text ++ ", values: ["
    ++ ", ".intercalate (h.values.map Value.describe) ++ "] \x7d"

end Handle

/-- Data of several types. -/
@[reducible]
def Natives : List Ty → Type
  | [] => Unit
  | t :: ts => t.Native × Natives ts

namespace Natives

def toValues : (ts : List Ty) → Natives ts → List Value
  | [], () => []
  | t :: ts, (x, xs) => Native.toValue t x :: toValues ts xs

/-- The data in as many values of the types' structure. -/
def ofValues? : (ts : List Ty) → List Value → Option (Natives ts)
  | [], [] => some ()
  | t :: ts, v :: vs => do return (← Native.ofValue? t v, ← ofValues? ts vs)
  | _, _ => none

end Natives

/-- A compiled expression that has the signature. -/
structure TypedHandle (sig : Signature) where
  handle : Handle
  signature_eq : handle.signature = sig

/-- The handle under a signature, if it has that signature. -/
def Handle.typed (h : Handle) (sig : Signature) : Except Error (TypedHandle sig) :=
  if heq : h.signature = sig then .ok ⟨h, heq⟩ else .error (.signatureMismatch sig h.signature)

namespace TypedHandle

/-- Calls with data of the argument types and reads the result as data of the result type. -/
def call {sig : Signature} (f : TypedHandle sig) (args : Natives sig.args) :
    Except Error sig.result.Native := do
  let v ← f.handle.call (Natives.toValues sig.args args)
  match Native.ofValue? sig.result v with
  | some x => return x
  | none => .error (.resultMismatch sig.result v.ty)

def describe {sig : Signature} (f : TypedHandle sig) : String :=
  "TypedFn(" ++ f.handle.describe ++ ")"

end TypedHandle

end Stencil
