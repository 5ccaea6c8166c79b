import Stencil.Proofs.Lookup
import Stencil.Compiler.Basic

/-!
# Sessions with a compiler

A session is a list of calls on one compiler, starting from an empty cache. The
compiler looks a shape up twice, under two keys that are made in different ways;
`Compiler.compile_eq` is the same function with one look-up. From it follows what
a call does to the cache, and the invariant of a session, `Cache.Faithful`: every
artifact in the cache is what its expression's skeleton lowers to. Expressions
of one shape have the same skeleton but for the names of its parameters, so what
a look-up finds is what lowering the caller's own skeleton would give
(`Cache.Faithful.find?`). Hence the answer of a compiler does not depend on its
history: it is always `Lambda.answer`, which uses no cache.
-/

namespace Stencil

/-- A call on a compiler. -/
inductive Call where
  | compile (e : Lambda)
  | evaluate (e : Lambda) (args : List Value)
  | compileTyped (e : Lambda) (sig : Signature)
  | isCached (e : Lambda)

namespace Compiler

variable {σ : Type}

/-- The compiler after a call. -/
def after (c : Compiler σ) : Call → Compiler σ
  | .compile e => (c.compile e).2
  | .evaluate e args => (c.evaluate e args).2
  | .compileTyped e sig => (c.compileTyped e sig).2
  | .isCached _ => c

/-- The compiler after a session. -/
def afterAll (c : Compiler σ) (calls : List Call) : Compiler σ := calls.foldl after c

/-- What every compilation preserves holds after every session. -/
theorem afterAll_induction {P : Compiler σ → Prop} (hstep : ∀ c e, P c → P (c.compile e).2)
    (calls : List Call) {c : Compiler σ} (hc : P c) : P (c.afterAll calls) := by
  induction calls generalizing c with
  | nil => exact hc
  | cons call calls ih =>
    refine ih (c := c.after call) ?_
    cases call with
    | compile e | evaluate e args | compileTyped e sig => exact hstep c e hc
    | isCached e => exact hc

end Compiler

theorem Cache.find?_canonical (cache : Cache) {e : Lambda} {f : Form Value} (h : e.HasForm f) :
    cache.find? (.canonical (f.skeleton e.params) e.params) = cache.find? (.probe e) :=
  (cache.find?_ofLambda_congr (Key.sameShape_probe_canonical h)).symm

namespace Compiler

variable {σ : Type}

/-- Compilation with a single look-up: the key made from the skeleton finds
nothing that the key made from the expression did not find. -/
theorem compile_eq (c : Compiler σ) (e : Lambda) : c.compile e =
    match e.extract with
    | .error fault => (.error (.extract fault), c)
    | .ok x =>
      match c.cache.find? (.probe e) with
      | some built =>
        (.ok ⟨built, x.values⟩, { c with cache := { c.cache with hits := c.cache.hits + 1 } })
      | none =>
        let compiles := c.cache.compiles
        match c.backend.lower x.skeleton e.arity c.state with
        | (.error fault, state) =>
          (.error (.compile fault),
            { c with state, cache := { c.cache with compiles := compiles + 1 } })
        | (.ok art, state) =>
          let entry : Entry := ⟨.canonical x.skeleton e.params, ⟨art, compiles⟩⟩
          (.ok ⟨entry.built, x.values⟩,
            { c with state, cache := { c.cache with compiles := compiles + 1
                                                    entries := c.cache.entries ++ [entry] } }) := by
  have hvalues := e.extractValues_eq
  rw [compile, Lambda.keyAndValues]
  cases hx : e.extract with
  | error fault =>
    rw [hx] at hvalues
    rw [hvalues]
    rfl
  | ok x =>
    rw [hx] at hvalues
    rw [hvalues]
    obtain ⟨f, hf, rfl⟩ := Lambda.extract_ok hx
    have hfind := c.cache.find?_canonical hf
    cases hprobe : c.cache.find? (.probe e) with
    | some built =>
      simp only [Except.map, bind, Except.bind, pure, Except.pure, Cache.get, hprobe]
    | none =>
      -- neither the second look-up nor the publication finds an entry
      rw [hprobe] at hfind
      have hstarted (n : Nat) : Cache.find? ⟨c.cache.entries, c.cache.hits, n, c.cache.racesLost⟩
          (.canonical (f.skeleton e.params) e.params) = none := hfind
      simp only [Except.map, bind, Except.bind, pure, Except.pure, Cache.get, hprobe,
        Cache.getOrCompile, hfind, Cache.start]
      cases hlower : c.backend.lower (f.skeleton e.params) e.arity c.state with
      | mk result state =>
        cases result with
        | error fault => simp only [hlower]
        | ok art => simp only [hlower, Cache.publish, hstarted]

end Compiler

/-! ### What the cache holds -/

theorem Lambda.lower_congr {a b : Lambda} (hp : a.paramTypes = b.paramTypes)
    (harena : a.arena = b.arena) (hroot : a.root = b.root) (declared : Nat) :
    a.lower declared = b.lower declared := by
  rw [lower, lower, tree, tree, arity_congr hp, hp, harena, hroot]

/-- Well-formed expressions of one shape lower to the same artifact, or fail to
for the same reason. -/
theorem Lambda.lower_skeleton_congr {a b : Lambda} {f g : Form Value} (ha : a.HasForm f)
    (hb : b.HasForm g) (h : a.sameShape b = true) :
    (f.skeleton a.params).lower a.arity = (g.skeleton b.params).lower b.arity := by
  obtain ⟨hp, hhole⟩ := (sameShape_iff_hole ha hb).mp h
  simp only [arity] at hhole
  rw [arity_congr hp]
  refine lower_congr ?_ (by simp only [Form.skeleton, hhole]) (by simp only [Form.skeleton, hhole]) _
  rw [paramTypes_skeleton, paramTypes_skeleton, hp, map_ty_consts_congr ha hb h]

/-- Every artifact in the cache is what the skeleton of an expression lowers to
that has the shape of its key. -/
def Cache.Faithful (cache : Cache) : Prop :=
  ∀ entry ∈ cache.entries, ∃ e f, e.HasForm f ∧ entry.key.lambda.sameShape e = true ∧
    (f.skeleton e.params).lower e.arity = .ok entry.built.artifact

/-- What a look-up finds is what lowering the skeleton at hand would give. -/
theorem Cache.Faithful.find? {cache : Cache} (hcache : cache.Faithful) {e : Lambda}
    {f : Form Value} (h : e.HasForm f) {built : Built}
    (hfind : cache.find? (.probe e) = some built) :
    (f.skeleton e.params).lower e.arity = .ok built.artifact := by
  obtain ⟨entry, hentry, rfl⟩ := Option.map_eq_some_iff.mp hfind
  obtain ⟨e₀, f₀, h₀, hshape, hlower⟩ := hcache entry (List.mem_of_find?_eq_some hentry)
  have hkey : entry.key.lambda.sameShape (Key.probe e).lambda = true := by
    have hsame := List.find?_some hentry
    exact ((Bool.and_eq_true _ _).mp hsame).2
  have hsame : e.sameShape e₀ = true :=
    Lambda.sameShape_trans (Lambda.sameShape_symm (Key.sameShape_probe h.form))
      (Lambda.sameShape_trans (Lambda.sameShape_symm hkey) hshape)
  rw [Lambda.lower_skeleton_congr h h₀ hsame, hlower]

/-- What compiling an expression comes to, without a cache: the artifact of its
skeleton and its own constants. -/
def Lambda.build (e : Lambda) : Except Error (Artifact × List Value) :=
  match e.extract with
  | .error fault => .error (.extract fault)
  | .ok x =>
    match x.skeleton.lower e.arity with
    | .error fault => .error (.compile fault)
    | .ok art => .ok (art, x.values)

namespace Compiler

/-- The compiler lowers with the standard backend, and its cache is faithful. -/
structure Honest (c : Compiler Unit) : Prop where
  backend : c.backend = .standard
  cache : c.cache.Faithful

theorem honest_isolated : isolated.Honest := ⟨rfl, fun _ h => by cases h⟩

/-- One compilation keeps the compiler honest, and comes to what it would come to
without a cache. -/
theorem Honest.compile {c : Compiler Unit} (hc : c.Honest) (e : Lambda) :
    (c.compile e).2.Honest ∧
      (c.compile e).1.map (fun h => (h.artifact, h.values)) = e.build := by
  rw [compile_eq, Lambda.build]
  cases hx : e.extract with
  | error fault => exact ⟨hc, rfl⟩
  | ok x =>
    obtain ⟨f, hf, rfl⟩ := Lambda.extract_ok hx
    cases hfind : c.cache.find? (.probe e) with
    | some built =>
      refine ⟨⟨hc.backend, hc.cache⟩, ?_⟩
      simp only [hc.cache.find? hf hfind]
      rfl
    | none =>
      simp only [hc.backend, Backend.standard]
      cases hlower : (f.skeleton e.params).lower e.arity with
      | error fault => exact ⟨⟨rfl, hc.cache⟩, rfl⟩
      | ok art =>
        refine ⟨⟨rfl, ?_⟩, rfl⟩
        -- the new entry stands for the expression that it was made from
        intro entry hentry
        rcases List.mem_append.mp hentry with hold | hnew
        · exact hc.cache entry hold
        · cases List.mem_singleton.mp hnew
          exact ⟨e, f, hf, Key.sameShape_canonical hf, hlower⟩

theorem honest_afterAll (calls : List Call) : (isolated.afterAll calls).Honest :=
  afterAll_induction (fun _ e hc => (hc.compile e).1) calls honest_isolated

end Compiler

/-- The answer to a call of an expression, without a cache. -/
def Lambda.answer (e : Lambda) (args : List Value) : Except Error Value :=
  e.build.bind fun (art, values) => art.invoke values args (art.arity - art.valueCount)

namespace Compiler

theorem Honest.evaluate {c : Compiler Unit} (hc : c.Honest) (e : Lambda) (args : List Value) :
    (c.evaluate e args).1 = e.answer args := by
  rw [Lambda.answer, ← (hc.compile e).2]
  show (c.compile e).1.bind (fun h => h.call args) = _
  cases (c.compile e).1 <;> rfl

/-- The cache is invisible: after any two sessions the same evaluation gives the
same value or the same error. -/
theorem evaluate_history_independent (calls₁ calls₂ : List Call) (e : Lambda)
    (args : List Value) :
    ((isolated.afterAll calls₁).evaluate e args).1
      = ((isolated.afterAll calls₂).evaluate e args).1 := by
  rw [(honest_afterAll calls₁).evaluate, (honest_afterAll calls₂).evaluate]

end Compiler

end Stencil
