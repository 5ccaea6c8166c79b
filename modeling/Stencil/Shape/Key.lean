import Stencil.Shape.Basic
import Stencil.Shape.Extract
import Stencil.Shape.Substitute
import Stencil.Lambda.Text

/-!
# Keys

A `Key` stands for the shape of an expression: the expression with every constant replaced by the
default of its type, together with its fingerprint. Keys are compared by fingerprint first and then
by shape. There are two ways to a key: directly from an expression (`Key.probe`), and from its
skeleton (`Key.canonical`).
-/

namespace Stencil

/-- The shape of an expression as something to look up. -/
structure Key where
  lambda : Lambda
  hash : UInt64
deriving Inhabited

namespace Key

def ofLambda (e : Lambda) : Key := ⟨e, e.fingerprint⟩

/-- The key of an expression, from the expression itself. -/
def probe (e : Lambda) : Key :=
  ofLambda { e with arena := e.arena.mapKinds fun
    | .const _, ty => .const ty.default
    | kind, _ => kind }

/-- The key of an expression with the given parameters, from its skeleton. -/
def canonical (skeleton : Lambda) (params : List Param) : Key :=
  let arity := params.length
  ofLambda (skeleton.substitute params fun i ty => if arity ≤ i then some ty.default else none)

/-- The fingerprint in sixteen hexadecimal digits. -/
def hashText (k : Key) : String :=
  let digits := Nat.toDigits 16 k.hash.toNat
  "0x" ++ String.ofList (List.replicate (16 - digits.length) '0' ++ digits)

/-- The form that shows fingerprint and expression. -/
def describe? (k : Key) : Option String :=
  k.lambda.render?.map fun text => "CanonicalKey(" ++ k.hashText ++ ", " ++ text ++ ")"

/-- Equality of keys. -/
def same (k l : Key) : Bool := decide (k.hash = l.hash) && k.lambda.sameShape l.lambda

end Key

/-- The key and the constants of a well-formed expression. -/
def Lambda.keyAndValues (e : Lambda) : Except ExtractError (Key × List Value) := do
  let values ← e.extractValues
  return (.probe e, values)

end Stencil
