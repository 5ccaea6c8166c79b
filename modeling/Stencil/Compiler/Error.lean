import Stencil.Shape.Extract
import Stencil.Code.Lower

/-!
# Signatures, and why a request to the compiler fails
-/

namespace Stencil

/-- The argument types and the result type of a function. -/
structure Signature where
  args : List Ty
  result : Ty
deriving DecidableEq, Inhabited

namespace Signature

def text (s : Signature) : String := "(" ++ Ty.listText s.args ++ ") -> " ++ s.result.text

/-- Reads types that a comma and a blank divide; no text is no types. -/
def readArgs? (s : String) : Option (List Ty) :=
  if s = "" then some [] else (s.splitOn ", ").mapM Ty.ofText?

/-- Reads a written signature. -/
def ofText? (s : String) : Option Signature :=
  match s.splitOn ") -> " with
  | [left, right] =>
    match left.toList with
    | '(' :: args => do return ⟨← readArgs? (String.ofList args), ← Ty.ofText? right⟩
    | _ => none
  | _ => none

end Signature

/-- Why a request to the compiler fails. -/
inductive Error where
  /-- The expression is malformed. -/
  | extract (fault : ExtractError)
  /-- The expression cannot be lowered. -/
  | compile (fault : CompileError)
  /-- The wrong number of arguments. -/
  | arity (expected got : Nat)
  /-- The evaluation ended without a value. -/
  | evaluation (stop : Stop)
  /-- A function was asked for under a signature that it does not have. -/
  | signatureMismatch (expected found : Signature)
  /-- A result does not have the structure of the signature's result type. -/
  | resultMismatch (expected found : Ty)
deriving DecidableEq, Inhabited

/-- The text that reports why an evaluation ended. -/
def Stop.message : Stop → String
  | error cause => cause.message
  | outOfBounds => "reference out of bounds"
  | unfinished => "expression contains itself"

/-- The text that reports the failure. -/
def Error.message : Error → String
  | extract fault => "malformed expression: " ++ fault.message
  | compile fault => "compilation failed: " ++ fault.message
  | arity expected got => "expected " ++ toString expected ++ " arguments, got " ++ toString got
  | evaluation stop => stop.message
  | signatureMismatch expected found =>
    "signature mismatch: expected " ++ expected.text ++ ", found " ++ found.text
  | resultMismatch expected found =>
    "signature mismatch: expected " ++ expected.text ++ ", found " ++ found.text

end Stencil
