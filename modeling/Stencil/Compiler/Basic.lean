import Stencil.Compiler.Handle
import Stencil.Lambda.Text

/-!
# The compiler

A `Compiler` answers requests to compile and to evaluate expressions, through a cache: expressions
of one shape share one artifact, whatever their constants. What lowers a shape that is not in the
cache is a `Backend`, which may keep a state of its own; `Backend.standard` lowers and keeps none.

Every request returns its answer and the compiler after it.
-/

namespace Stencil

/-- What lowers the skeleton of a new shape, given how many of its parameters are the caller's. -/
structure Backend (σ : Type) where
  lower : Lambda → Nat → σ → Except CompileError Artifact × σ

namespace Backend

/-- Lowers, and keeps no state. -/
def standard : Backend Unit := ⟨fun e declared s => (e.lower declared, s)⟩

/-- A request that a recording backend has seen. -/
structure Request where
  skeleton : Lambda
  declared : Nat
deriving Inhabited

/-- Writes down every request, refuses the first `failures` of them and lowers the others. -/
def recording (failures : Nat) : Backend (List Request) :=
  ⟨fun e declared log =>
    let result := if log.length < failures then .error ⟨e.root, .danglingList⟩ else e.lower declared
    (result, log ++ [⟨e, declared⟩])⟩

end Backend

/-- A cache in front of a backend. -/
structure Compiler (σ : Type) where
  backend : Backend σ
  state : σ
  cache : Cache

namespace Compiler

/-- A compiler over an empty cache. -/
def isolated : Compiler Unit := ⟨.standard, (), .empty⟩

variable {σ : Type}

/-- Compiles an expression. The key and the constants come from the expression itself; its skeleton
is made only if the cache has no artifact for the key. -/
def compile (c : Compiler σ) (e : Lambda) : Except Error Handle × Compiler σ :=
  match e.keyAndValues with
  | .error fault => (.error (.extract fault), c)
  | .ok (probe, values) =>
    match c.cache.get probe with
    | (some built, cache) => (.ok ⟨built, values⟩, { c with cache })
    | (none, cache) =>
      match e.extract with
      | .error fault => (.error (.extract fault), { c with cache })
      | .ok extracted =>
        let lower (s : σ) (cache : Cache) :=
          let (result, s) := c.backend.lower extracted.skeleton e.arity s
          (result, s, cache)
        match cache.getOrCompile (.canonical extracted.skeleton e.params) lower c.state with
        | (.error fault, state, cache) => (.error (.compile fault), { c with state, cache })
        | (.ok built, state, cache) => (.ok ⟨built, values⟩, { c with state, cache })

/-- Compiles an expression and calls it. -/
def evaluate (c : Compiler σ) (e : Lambda) (args : List Value) : Except Error Value × Compiler σ :=
  let (result, c) := c.compile e
  (result.bind fun h => h.call args, c)

/-- Compiles an expression under a signature. -/
def compileTyped (c : Compiler σ) (e : Lambda) (sig : Signature) :
    Except Error (TypedHandle sig) × Compiler σ :=
  let (result, c) := c.compile e
  (result.bind fun h => h.typed sig, c)

/-- Whether the expression is well formed and its shape is in the cache; counts nothing. -/
def isCached (c : Compiler σ) (e : Lambda) : Bool :=
  match e.keyAndValues with
  | .error _ => false
  | .ok (key, _) => c.cache.contains key

/-- Evaluates expressions one after the other over one cache. -/
def evaluateAll (c : Compiler σ) (args : List Value) :
    List Lambda → List (Except Error Value) × Compiler σ
  | [] => ([], c)
  | e :: es =>
    let (result, c) := c.evaluate e args
    let (results, c) := c.evaluateAll args es
    (result :: results, c)

def describe (c : Compiler σ) : String :=
  "ExprCompiler \x7b cache: " ++ c.cache.describe ++ ", .. \x7d"

end Compiler

end Stencil
