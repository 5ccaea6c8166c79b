import Stencil.Shape.Key
import Stencil.Code.Basic

/-!
# The cache of artifacts

A `Cache` holds at most one artifact per shape and counts what it is used for. Its atomic steps are
a look-up (`Cache.get`), the start of a compilation (`Cache.start`), and the publication of the
result (`Cache.publish`), which never replaces what is already there: whoever comes second gets the
artifact that was published first. `Cache.getOrCompile` puts the three together; between its start
and its publication the cache may change, since compiling may itself use the cache.

Two artifacts with the same code are still two; `Built.serial` tells them apart.
-/

namespace Stencil

/-- An artifact that came out of a compilation, with the compilation's number. -/
structure Built where
  artifact : Artifact
  serial : Nat
deriving Inhabited

/-- A published artifact. -/
structure Entry where
  key : Key
  built : Built
deriving Inhabited

/-- Published artifacts, oldest first, and the counters. The counters are exact: they do not wrap,
as counters of 64 bits would after `2 ^ 64` events. -/
structure Cache where
  entries : List Entry
  /-- Look-ups that found something. -/
  hits : Nat
  /-- Compilations started. -/
  compiles : Nat
  /-- Publications that came second. -/
  racesLost : Nat
deriving Inhabited

namespace Cache

def empty : Cache := ⟨[], 0, 0, 0⟩

def size (c : Cache) : Nat := c.entries.length

/-- The artifact published under a key. -/
def find? (c : Cache) (key : Key) : Option Built :=
  (c.entries.find? fun entry => entry.key.same key).map Entry.built

/-- Whether something is published under the key; counts nothing. -/
def contains (c : Cache) (key : Key) : Bool := (c.find? key).isSome

/-- A look-up that counts if it finds something. -/
def get (c : Cache) (key : Key) : Option Built × Cache :=
  match c.find? key with
  | some built => (some built, { c with hits := c.hits + 1 })
  | none => (none, c)

/-- Counts a compilation and gives it its number. -/
def start (c : Cache) : Nat × Cache :=
  (c.compiles, { c with compiles := c.compiles + 1 })

/-- Publishes an artifact unless there is one already, and returns the one that is published. -/
def publish (c : Cache) (key : Key) (built : Built) : Built × Cache :=
  match c.find? key with
  | some winner => (winner, { c with racesLost := c.racesLost + 1 })
  | none => (built, { c with entries := c.entries ++ [⟨key, built⟩] })

/-- The artifact under the key, compiled and published if it is not there. A failed compilation
publishes nothing. `compile` may change the cache, and keeps a state of its own. -/
def getOrCompile {σ ε : Type} (key : Key) (compile : σ → Cache → Except ε Artifact × σ × Cache)
    (s : σ) (c : Cache) : Except ε Built × σ × Cache :=
  match c.get key with
  | (some built, c) => (.ok built, s, c)
  | (none, c) =>
    let (serial, c) := c.start
    match compile s c with
    | (.error err, s, c) => (.error err, s, c)
    | (.ok artifact, s, c) =>
      let (built, c) := c.publish key ⟨artifact, serial⟩
      (.ok built, s, c)

def describe (c : Cache) : String :=
  "CompilationCache \x7b stats: CacheStats \x7b entries: " ++ toString c.size
    ++ ", hits: " ++ toString c.hits ++ ", compiles: " ++ toString c.compiles
    ++ ", races_lost: " ++ toString c.racesLost ++ " \x7d \x7d"

end Cache

end Stencil
