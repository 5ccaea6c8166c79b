import Stencil.Proofs.Session

/-!
# Many callers over one cache

Any number of calls may be under way over one cache, and their steps may follow
each other in any order. A step of a call is a look-up, the start of a compilation,
the end of a compilation, which happens outside the cache and may take as long and
end as it likes, or a publication. `Traffic` is the cache with all calls that were
made so far, each at its `Stage`; an `Event` says which of them goes on.

The steps are those of `Cache.getOrCompile` and `Compiler.compile`: a call that
nobody interrupts does what these do (`Traffic.alone_getOrCompile`,
`Traffic.alone_compile`).
-/

namespace Stencil

/-- What a caller asks for: the artifact under a key, or an expression compiled. -/
inductive Demand where
  | artifact (key : Key) (genuine : key.Genuine)
  | handle (e : Lambda)

/-- The key that a demand is about. -/
def Demand.key : Demand → Key
  | artifact key _ => key
  | handle e => .probe e

theorem Demand.ofLambda_key (demand : Demand) : Key.ofLambda demand.key.lambda = demand.key := by
  cases demand with
  | artifact key genuine => exact genuine.spec.1
  | handle e => rfl

/-- How far a call has come. -/
inductive Stage (ε : Type) where
  /-- About to check the expression and to look it up. -/
  | checking (e : Lambda)
  /-- About to look the key up. -/
  | looking (key : Key)
  /-- Nothing was found; about to start a compilation. -/
  | missing (key : Key)
  /-- The compilation with this number runs. -/
  | compiling (key : Key) (serial : Nat)
  /-- About to publish what came out of the compilation. -/
  | publishing (key : Key) (built : Built)
  /-- Over: the call returned an artifact. -/
  | returned (built : Built)
  /-- Over: the compilation with this number failed. -/
  | failed (serial : Nat) (err : ε)
  /-- Over: the expression is malformed. -/
  | rejected (fault : ExtractError)

namespace Stage

variable {ε : Type}

/-- Where a call begins. -/
def first : Demand → Stage ε
  | .artifact key _ => looking key
  | .handle e => checking e

/-- The next step of a call on the cache. A call that is over, or whose compilation
runs, takes none. -/
def advance : Stage ε → Cache → Stage ε × Cache
  | checking e, c =>
    match e.keyAndValues with
    | .error fault => (rejected fault, c)
    | .ok (probe, _) =>
      match c.get probe with
      | (some built, c) => (returned built, c)
      | (none, c) =>
        match e.extract with
        | .error fault => (rejected fault, c)
        | .ok x => (looking (.canonical x.skeleton e.params), c)
  | looking key, c =>
    match c.get key with
    | (some built, c) => (returned built, c)
    | (none, c) => (missing key, c)
  | missing key, c =>
    let (serial, c) := c.start
    (compiling key serial, c)
  | publishing key built, c =>
    let (winner, c) := c.publish key built
    (returned winner, c)
  | stage, c => (stage, c)

/-- The end of a compilation that runs. -/
def finish (result : Except ε Artifact) : Stage ε → Stage ε
  | compiling key serial =>
    match result with
    | .ok art => publishing key ⟨art, serial⟩
    | .error err => failed serial err
  | stage => stage

/-- The call is no longer in progress. -/
def Over : Stage ε → Prop
  | returned _ | failed _ _ | rejected _ => True
  | _ => False

def isFailed : Stage ε → Bool
  | failed _ _ => true
  | _ => false

end Stage

/-- A call with its demand. -/
structure Job (ε : Type) where
  demand : Demand
  stage : Stage ε

/-- What happens next: a call is made, a call takes its next step, or the
compilation of a call ends. Calls are numbered in the order in which they were
made. -/
inductive Event (ε : Type) where
  | call (demand : Demand)
  | advance (i : Nat)
  | finish (i : Nat) (result : Except ε Artifact)

/-- A cache and all calls that were made on it. -/
structure Traffic (ε : Type) where
  cache : Cache
  jobs : List (Job ε)

namespace Traffic

variable {ε : Type}

def empty : Traffic ε := ⟨.empty, []⟩

/-- The state after an event. An event that no call is ready for does nothing. -/
def step (t : Traffic ε) : Event ε → Traffic ε
  | .call demand => { t with jobs := t.jobs ++ [⟨demand, .first demand⟩] }
  | .advance i =>
    match t.jobs[i]? with
    | none => t
    | some job =>
      let (stage, cache) := job.stage.advance t.cache
      ⟨cache, t.jobs.set i { job with stage }⟩
  | .finish i result =>
    match t.jobs[i]? with
    | none => t
    | some job => { t with jobs := t.jobs.set i { job with stage := job.stage.finish result } }

/-- The state after events in the given order. -/
def run (t : Traffic ε) (events : List (Event ε)) : Traffic ε := events.foldl step t

/-- How many compilations have failed. -/
def failures (t : Traffic ε) : Nat := t.jobs.countP fun job => job.stage.isFailed

end Traffic

/-! ### A call that nobody interrupts -/

namespace Stage

variable {ε : Type}

/-- What the caller gets when the call is over. -/
def answer? : Stage ε → Option (Except (ExtractError ⊕ ε) Built)
  | returned built => some (.ok built)
  | failed _ err => some (.error (.inr err))
  | rejected fault => some (.error (.inl fault))
  | _ => none

/-- All steps of a call in a row, where a compilation comes to `result`. A call that
has less to do takes no step in the place of the others. -/
def solo (result : Except ε Artifact) (stage : Stage ε) (c : Cache) : Stage ε × Cache :=
  let (stage, c) := stage.advance c
  let (stage, c) := stage.advance c
  let (stage, c) := stage.advance c
  (stage.finish result).advance c

/-- A call for a key does what `Cache.getOrCompile` does. -/
theorem solo_looking {σ : Type} {compile : σ → Cache → Except ε Artifact × σ × Cache} {s s' : σ}
    {c : Cache} {result : Except ε Artifact}
    (hcompile : compile s c.start.2 = (result, s', c.start.2)) (key : Key) :
    ((looking key).solo result c).1.answer?
        = some ((c.getOrCompile key compile s).1.mapError .inr) ∧
      ((looking key).solo result c).2 = (c.getOrCompile key compile s).2.2 := by
  cases hfind : c.find? key with
  | some built =>
    have hget : c.get key = (some built, { c with hits := c.hits + 1 }) := by
      rw [Cache.get, hfind]
    rw [Cache.getOrCompile, hget, solo, advance, hget]
    exact ⟨rfl, rfl⟩
  | none =>
    have hget : c.get key = (none, c) := by rw [Cache.get, hfind]
    simp only [Cache.getOrCompile, hcompile, hget, solo, advance, finish]
    cases result with
    | ok art => exact ⟨rfl, rfl⟩
    | error err => exact ⟨rfl, rfl⟩

/-- A call for an expression whose shape is not known goes on as a call for the key
of its skeleton. -/
theorem solo_checking {e : Lambda} {x : Extracted} (hx : e.extract = .ok x) {c : Cache}
    (hnone : c.find? (.probe e) = none) (result : Except ε Artifact) :
    (checking e).solo result c = (looking (.canonical x.skeleton e.params)).solo result c := by
  have hfirst : (checking e : Stage ε).advance c
      = (looking (.canonical x.skeleton e.params), c) := by
    simp only [advance, Lambda.keyAndValues_eq, hx, Except.map, Cache.get, hnone]
  rw [solo, hfirst]
  -- the key is looked up, and then there is at most one more step to take
  cases hfind : c.find? (.canonical x.skeleton e.params) with
  | some built => simp only [solo, advance, Cache.get, hfind]
  | none => simp only [solo, advance, Cache.get, hfind]

/-- A call for an expression does what `Compiler.compile` does. -/
theorem solo_compile {σ : Type} (c : Compiler σ) {e : Lambda}
    {result : Except CompileError Artifact}
    (hresult : ∀ x, e.extract = .ok x → (c.backend.lower x.skeleton e.arity c.state).1 = result) :
    ((checking e).solo result c.cache).1.answer?.map (·.mapError (Sum.elim .extract .compile))
        = some ((c.compile e).1.map Handle.built) ∧
      ((checking e).solo result c.cache).2 = (c.compile e).2.cache := by
  cases hx : e.extract with
  | error fault =>
    have hsolo : (checking e).solo result c.cache = (rejected fault, c.cache) := by
      simp only [solo, advance, finish, Lambda.keyAndValues_eq, hx, Except.map]
    rw [hsolo, c.compile_eq, hx]
    exact ⟨rfl, rfl⟩
  | ok x =>
    cases hfind : c.cache.find? (.probe e) with
    | some built =>
      have hsolo : (checking e).solo result c.cache
          = (returned built, { c.cache with hits := c.cache.hits + 1 }) := by
        simp only [solo, advance, finish, Lambda.keyAndValues_eq, hx, Except.map, Cache.get, hfind]
      rw [hsolo, c.compile_eq, hx]
      simp only [hfind, and_true]
      rfl
    | none =>
      let lower (s : σ) (cache : Cache) :=
        ((c.backend.lower x.skeleton e.arity s).1, (c.backend.lower x.skeleton e.arity s).2, cache)
      have hlower : lower c.state c.cache.start.2
          = (result, (c.backend.lower x.skeleton e.arity c.state).2, c.cache.start.2) := by
        rw [← hresult x hx]
      obtain ⟨hanswer, hcache⟩ := solo_looking hlower (.canonical x.skeleton e.params)
      rw [solo_checking hx hfind, hanswer, hcache]
      simp only [Compiler.compile, Lambda.keyAndValues_eq, hx, Except.map, Cache.get, hfind]
      rcases c.cache.getOrCompile (.canonical x.skeleton e.params) lower c.state
        with ⟨fault | built, state, after⟩
      · exact ⟨rfl, rfl⟩
      · exact ⟨rfl, rfl⟩

end Stage

namespace Traffic

variable {ε : Type}

/-- A call is made, and its steps follow each other. -/
def alone (t : Traffic ε) (demand : Demand) (result : Except ε Artifact) : Traffic ε :=
  let n := t.jobs.length
  t.run [.call demand, .advance n, .advance n, .advance n, .finish n result, .advance n]

theorem step_advance_last (c : Cache) (jobs : List (Job ε)) (job : Job ε) :
    step ⟨c, jobs ++ [job]⟩ (.advance jobs.length)
      = ⟨(job.stage.advance c).2, jobs ++ [{ job with stage := (job.stage.advance c).1 }]⟩ := by
  simp [step]

theorem step_finish_last (c : Cache) (jobs : List (Job ε)) (job : Job ε)
    (result : Except ε Artifact) :
    step ⟨c, jobs ++ [job]⟩ (.finish jobs.length result)
      = ⟨c, jobs ++ [{ job with stage := job.stage.finish result }]⟩ := by
  simp [step]

theorem alone_eq (t : Traffic ε) (demand : Demand) (result : Except ε Artifact) :
    t.alone demand result =
      ⟨((Stage.first demand).solo result t.cache).2,
        t.jobs ++ [⟨demand, ((Stage.first demand).solo result t.cache).1⟩]⟩ := by
  have hcall : t.step (.call demand) = ⟨t.cache, t.jobs ++ [⟨demand, .first demand⟩]⟩ := rfl
  simp only [alone, run, List.foldl_cons, List.foldl_nil, hcall, step_advance_last,
    step_finish_last, Stage.solo]

/-- A call for an artifact that nobody interrupts does what `Cache.getOrCompile` does. -/
theorem alone_getOrCompile {σ : Type} {compile : σ → Cache → Except ε Artifact × σ × Cache}
    {s s' : σ} {t : Traffic ε} {result : Except ε Artifact}
    (hcompile : compile s t.cache.start.2 = (result, s', t.cache.start.2)) (key : Key)
    (genuine : key.Genuine) :
    ∃ stage, t.alone (.artifact key genuine) result
        = ⟨(t.cache.getOrCompile key compile s).2.2, t.jobs ++ [⟨.artifact key genuine, stage⟩]⟩ ∧
      stage.answer? = some ((t.cache.getOrCompile key compile s).1.mapError .inr) := by
  obtain ⟨hanswer, hcache⟩ := Stage.solo_looking hcompile key
  refine ⟨_, ?_, hanswer⟩
  rw [alone_eq, Stage.first, hcache]

/-- A call for an expression that nobody interrupts does what `Compiler.compile` does. -/
theorem alone_compile {σ : Type} (c : Compiler σ) {e : Lambda} {jobs : List (Job CompileError)}
    {result : Except CompileError Artifact}
    (hresult : ∀ x, e.extract = .ok x → (c.backend.lower x.skeleton e.arity c.state).1 = result) :
    ∃ stage, alone ⟨c.cache, jobs⟩ (.handle e) result
        = ⟨(c.compile e).2.cache, jobs ++ [⟨.handle e, stage⟩]⟩ ∧
      stage.answer?.map (·.mapError (Sum.elim .extract .compile))
        = some ((c.compile e).1.map Handle.built) := by
  obtain ⟨hanswer, hcache⟩ := Stage.solo_compile c hresult
  refine ⟨_, ?_, hanswer⟩
  rw [alone_eq, Stage.first, hcache]

end Traffic

end Stencil
