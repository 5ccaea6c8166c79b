import Mathlib.Data.List.Perm.Basic
import Stencil.Proofs.Traffic

/-!
# What holds under every interleaving

Three things hold in every state that calls can reach (`Traffic.Inv`). The cache is
orderly. A call that is under way holds a key for what it was asked for, and a call
that has returned an artifact would still find that artifact (`Stage.Serves`). And
every compilation that was started is accounted for: it is held by a call, or it is
that of an entry, or it came second (`Books`).

What a single step can do is listed in `Stage.Move`. Steps only add entries, so the
step of one call leaves intact what the others know (`Stage.Serves.mono`,
`Traffic.Inv.replace`).
-/

namespace Stencil

/-! ### Accounts of compilations -/

/-- The numbers of the compilations that the entries came out of. -/
def Cache.serials (c : Cache) : List Nat := c.entries.map fun entry => entry.built.serial

/-- The compilations that were started are the pending ones, those of the entries
and those that came second; the numbers of the first two kinds are all different. -/
structure Books (c : Cache) (pending : List Nat) : Prop where
  nodup : (pending ++ c.serials).Nodup
  bound : ∀ n ∈ pending ++ c.serials, n < c.compiles
  count : c.compiles = pending.length + c.size + c.racesLost

namespace Books

variable {c : Cache} {pending : List Nat}

theorem empty : Books .empty [] := ⟨.nil, fun _ h => absurd h List.not_mem_nil, rfl⟩

theorem perm {other : List Nat} (h : pending.Perm other) (hc : Books c pending) :
    Books c other where
  nodup := (h.append_right _).nodup_iff.mp hc.nodup
  bound n hn := hc.bound n ((h.append_right _).mem_iff.mpr hn)
  count := by rw [← h.length_eq, hc.count]

/-- A compilation that starts gets a new number. -/
theorem start (hc : Books c pending) : Books c.start.2 (c.start.1 :: pending) where
  nodup := by
    refine List.nodup_cons.mpr ⟨fun hmem => ?_, hc.nodup⟩
    exact absurd (hc.bound _ hmem) (Nat.lt_irrefl _)
  bound n hn := by
    rcases List.mem_cons.mp hn with rfl | hold
    · exact Nat.lt_succ_self _
    · exact Nat.lt_succ_of_lt (hc.bound n hold)
  count := by
    have hcount := hc.count
    show c.compiles + 1 = (pending.length + 1) + c.size + c.racesLost
    omega

/-- A publication turns a pending compilation into an entry, or it comes second. -/
theorem publish {key : Key} {built : Built} (hc : Books c (built.serial :: pending)) :
    Books (c.publish key built).2 pending := by
  have hcount := hc.count
  rw [List.length_cons] at hcount
  unfold Cache.publish
  split
  next winner _ =>
    refine ⟨(List.nodup_cons.mp hc.nodup).2, fun n hn => hc.bound n (List.mem_cons_of_mem _ hn), ?_⟩
    show c.compiles = pending.length + c.size + (c.racesLost + 1)
    omega
  next =>
    have hserials : Cache.serials { c with entries := c.entries ++ [⟨key, built⟩] }
        = c.serials ++ [built.serial] := List.map_append
    have hperm : (built.serial :: (pending ++ c.serials)).Perm
        (pending ++ Cache.serials { c with entries := c.entries ++ [⟨key, built⟩] }) := by
      rw [hserials, ← List.append_assoc]
      exact (List.perm_append_singleton _ _).symm
    refine ⟨hperm.nodup_iff.mp hc.nodup, fun n hn => hc.bound n (hperm.mem_iff.mpr hn), ?_⟩
    show c.compiles = pending.length + (c.entries ++ [_]).length + c.racesLost
    rw [List.length_append, List.length_singleton]
    unfold Cache.size at hcount
    omega

end Books

/-! ### One step of one call -/

namespace Cache

theorem prefix_publish (c : Cache) (key : Key) (built : Built) :
    c.entries <+: (c.publish key built).2.entries := by
  unfold publish
  split
  next => exact List.prefix_rfl
  next => exact List.prefix_append _ _

theorem Orderly.of_entries {c d : Cache} (hc : c.Orderly) (h : d.entries = c.entries) :
    d.Orderly := by
  refine ⟨fun entry hentry => hc.genuine entry ?_, ?_⟩
  · rwa [h] at hentry
  · rw [h]
    exact hc.distinct

theorem Orderly.publish {c : Cache} (hc : c.Orderly) {key : Key} (hk : key.Genuine)
    (built : Built) : (c.publish key built).2.Orderly := by
  unfold Cache.publish
  split
  next => exact hc.of_entries rfl
  next hnone => exact hc.append hk hnone rfl

/-- What a publication returns is what is then found. -/
theorem find?_publish (c : Cache) {key : Key} (hk : key.Genuine) (built : Built) :
    (c.publish key built).2.find? key = some (c.publish key built).1 := by
  unfold publish
  split
  next winner hwinner => exact hwinner
  next hnone => exact find?_append rfl hnone ((hk.same_iff hk).mpr hk.sameShape_self)

end Cache

namespace Stage

variable {ε : Type}

/-- What the next step of a call on a cache can be. -/
inductive Move (c : Cache) : Stage ε → Stage ε → Cache → Prop where
  | reject {e : Lambda} {fault : ExtractError} : Move c (checking e) (rejected fault) c
  | found {e : Lambda} {built : Built} : c.find? (.probe e) = some built →
      Move c (checking e) (returned built) { c with hits := c.hits + 1 }
  | unseen {e : Lambda} {x : Extracted} : e.extract = .ok x →
      Move c (checking e) (looking (.canonical x.skeleton e.params)) c
  | hit {key : Key} {built : Built} : c.find? key = some built →
      Move c (looking key) (returned built) { c with hits := c.hits + 1 }
  | miss {key : Key} : Move c (looking key) (missing key) c
  | start {key : Key} : Move c (missing key) (compiling key c.start.1) c.start.2
  | publish {key : Key} {built : Built} : Move c (publishing key built)
      (returned (c.publish key built).1) (c.publish key built).2
  | stay {stage : Stage ε} : Move c stage stage c

variable {c d : Cache} {demand : Demand} {stage stage' : Stage ε}

theorem move_advance (stage : Stage ε) (c : Cache) :
    Move c stage (stage.advance c).1 (stage.advance c).2 := by
  cases stage with
  | checking e =>
    rw [advance, Lambda.keyAndValues_eq]
    cases hx : e.extract with
    | error fault => exact .reject
    | ok x =>
      simp only [Except.map, Cache.get]
      cases hfind : c.find? (.probe e) with
      | some built => exact .found hfind
      | none => exact .unseen hx
  | looking key =>
    rw [advance, Cache.get]
    cases hfind : c.find? key with
    | some built => exact .hit hfind
    | none => exact .miss
  | missing key => exact .start
  | publishing key built => exact .publish
  | compiling key serial | returned built | failed serial err | rejected fault => exact .stay

/-- No step takes an entry away. -/
theorem Move.entries (h : Move c stage stage' d) : c.entries <+: d.entries := by
  cases h with
  | publish => exact c.prefix_publish _ _
  | _ => exact List.prefix_rfl

/-- A call under way holds a key for its demand; a call that has returned something
would find it again. -/
def Serves (demand : Demand) (c : Cache) : Stage ε → Prop
  | checking e => demand = .handle e
  | looking key | missing key | compiling key _ | publishing key _ =>
    key.Genuine ∧ demand.key.Genuine ∧ key.lambda.sameShape demand.key.lambda = true
  | returned built => c.find? demand.key = some built
  | failed _ _ | rejected _ => True

theorem serves_first (demand : Demand) (c : Cache) :
    (first demand : Stage ε).Serves demand c := by
  cases demand with
  | artifact key genuine => exact ⟨genuine, genuine, genuine.sameShape_self⟩
  | handle e => rfl

/-- The steps of other calls do not matter to a call. -/
theorem Serves.mono (h : c.entries <+: d.entries) (hs : stage.Serves demand c) :
    stage.Serves demand d := by
  cases stage with
  | returned built => exact Cache.find?_mono h hs
  | _ => exact hs

theorem Serves.move (h : Move c stage stage' d) (hs : stage.Serves demand c) :
    stage'.Serves demand d := by
  cases h with
  | reject => trivial
  | found hfind =>
    cases hs
    exact hfind
  | unseen hx =>
    cases hs
    obtain ⟨f, hf, rfl⟩ := Lambda.extract_ok hx
    refine ⟨.canonical hx, Key.genuine_probe hx, ?_⟩
    exact Lambda.sameShape_symm (Key.sameShape_probe_canonical hf)
  | hit hfind =>
    obtain ⟨hkey, hdemand, hshape⟩ := hs
    exact (c.find?_congr hkey hdemand hshape).symm.trans hfind
  | @publish key built =>
    obtain ⟨hkey, hdemand, hshape⟩ := hs
    have hfind := c.find?_publish hkey built
    exact (Cache.find?_congr _ hkey hdemand hshape).symm.trans hfind
  | miss | start | stay => exact hs

theorem Serves.finish (result : Except ε Artifact) (hs : stage.Serves demand c) :
    (stage.finish result).Serves demand c := by
  cases stage with
  | compiling key serial =>
    cases result with
    | ok art => exact hs
    | error err => trivial
  | _ => exact hs

/-- A call publishes only under a key for its demand, so it keeps the cache orderly. -/
theorem Serves.orderly (h : Move c stage stage' d) (hs : stage.Serves demand c)
    (hc : c.Orderly) : d.Orderly := by
  cases h with
  | publish => exact hc.publish hs.1 _
  | reject | unseen | miss | stay => exact hc
  | found | hit | start => exact hc.of_entries rfl

/-- The number of the compilation that a call holds. A failed call holds its own for
ever. -/
def serial? : Stage ε → Option Nat
  | compiling _ serial | failed serial _ => some serial
  | publishing _ built => some built.serial
  | _ => none

theorem serial?_finish (stage : Stage ε) (result : Except ε Artifact) :
    (stage.finish result).serial? = stage.serial? := by
  cases stage with
  | compiling key serial => cases result <;> rfl
  | _ => rfl

theorem Move.books (h : Move c stage stage' d) {pending : List Nat}
    (hc : Books c (stage.serial?.toList ++ pending)) :
    Books d (stage'.serial?.toList ++ pending) := by
  cases h with
  | start => exact hc.start
  | publish => exact hc.publish
  | reject | unseen | miss | stay => exact hc
  | found | hit => exact ⟨hc.nodup, hc.bound, hc.count⟩

/-- A call that is over holds a compilation exactly if it failed. -/
theorem Over.isSome_serial? (h : stage.Over) : stage.serial?.isSome = stage.isFailed := by
  cases stage with
  | returned built | failed serial err | rejected fault => rfl
  | _ => exact absurd h id

end Stage

/-! ### All calls together -/

namespace Traffic

variable {ε : Type} {t : Traffic ε}

/-- The numbers of the compilations that calls hold. -/
def pending (t : Traffic ε) : List Nat := t.jobs.filterMap fun job => job.stage.serial?

/-- Holds in every state that calls can reach. -/
structure Inv (t : Traffic ε) : Prop where
  orderly : t.cache.Orderly
  serves : ∀ job ∈ t.jobs, job.stage.Serves job.demand t.cache
  books : Books t.cache t.pending

theorem inv_empty : (empty : Traffic ε).Inv where
  orderly := Cache.orderly_empty
  serves _ h := absurd h List.not_mem_nil
  books := .empty

theorem pending_cons (c : Cache) (job : Job ε) (jobs : List (Job ε)) :
    pending ⟨c, job :: jobs⟩ = job.stage.serial?.toList ++ pending ⟨c, jobs⟩ := by
  rw [pending, List.filterMap_cons]
  cases job.stage.serial? <;> rfl

/-- A call can be put into another stage if that serves its demand, the cache has
lost no entry and the books stay in order; the other calls are not concerned. -/
theorem Inv.replace (h : t.Inv) {i : Nat} {job : Job ε} (hjob : t.jobs[i]? = some job)
    {c : Cache} {stage : Stage ε} (horderly : c.Orderly) (hentries : t.cache.entries <+: c.entries)
    (hserves : stage.Serves job.demand c)
    (hbooks : ∀ rest, Books t.cache (job.stage.serial?.toList ++ rest) →
      Books c (stage.serial?.toList ++ rest)) :
    Inv ⟨c, t.jobs.set i { job with stage }⟩ where
  orderly := horderly
  serves other hother := by
    rcases List.mem_or_eq_of_mem_set hother with hold | rfl
    · exact (h.serves other hold).mono hentries
    · exact hserves
  books := by
    -- the call comes first in another order of the calls, before and after
    obtain ⟨hi, rfl⟩ := List.getElem?_eq_some_iff.mp hjob
    have hbefore := (List.getElem_cons_eraseIdx_perm hi).symm
    have hafter := List.set_perm_cons_eraseIdx hi { t.jobs[i] with stage }
    have hold := h.books.perm (hbefore.filterMap fun job => job.stage.serial?)
    have hnew := hbooks (pending ⟨c, t.jobs.eraseIdx i⟩) (pending_cons t.cache t.jobs[i] _ ▸ hold)
    rw [← pending_cons c { t.jobs[i] with stage }] at hnew
    exact hnew.perm (hafter.filterMap fun job => job.stage.serial?).symm

theorem Inv.step (h : t.Inv) (event : Event ε) : (t.step event).Inv := by
  cases event with
  | call demand =>
    refine ⟨h.orderly, fun job hjob => ?_, ?_⟩
    · rcases List.mem_append.mp hjob with hold | hnew
      · exact h.serves job hold
      · cases List.mem_singleton.mp hnew
        exact Stage.serves_first demand t.cache
    · have hpending : pending ⟨t.cache, t.jobs ++ [⟨demand, .first demand⟩]⟩ = t.pending := by
        rw [pending, List.filterMap_append]
        cases demand <;> exact List.append_nil _
      exact hpending ▸ h.books
  | advance i =>
    rw [Traffic.step]
    split
    next => exact h
    next job hjob =>
      have hmove := job.stage.move_advance t.cache
      have hserves := h.serves job (List.mem_of_getElem? hjob)
      exact h.replace hjob (hserves.orderly hmove h.orderly) hmove.entries (hserves.move hmove)
        fun _ hrest => hmove.books hrest
  | finish i result =>
    rw [Traffic.step]
    split
    next => exact h
    next job hjob =>
      have hserves := h.serves job (List.mem_of_getElem? hjob)
      refine h.replace hjob h.orderly List.prefix_rfl (hserves.finish result) fun _ hrest => ?_
      rwa [Stage.serial?_finish]

theorem inv_run (events : List (Event ε)) (h : t.Inv) : (t.run events).Inv := by
  induction events generalizing t with
  | nil => exact h
  | cons event events ih => exact ih (h.step event)

theorem prefix_step (t : Traffic ε) (event : Event ε) :
    t.cache.entries <+: (t.step event).cache.entries := by
  cases event with
  | call demand => exact List.prefix_rfl
  | advance i =>
    rw [step]
    split
    next => exact List.prefix_rfl
    next job _ => exact (job.stage.move_advance t.cache).entries
  | finish i result =>
    rw [step]
    split <;> exact List.prefix_rfl

theorem prefix_run (t : Traffic ε) (events : List (Event ε)) :
    t.cache.entries <+: (t.run events).cache.entries := by
  induction events generalizing t with
  | nil => exact List.prefix_rfl
  | cons event events ih => exact (t.prefix_step event).trans (ih (t.step event))

/-- Calls for one shape that have returned something have returned the same. -/
theorem Inv.returned_congr (h : t.Inv) {job₁ job₂ : Job ε} (h₁ : job₁ ∈ t.jobs)
    (h₂ : job₂ ∈ t.jobs) {built₁ built₂ : Built} (hr₁ : job₁.stage = .returned built₁)
    (hr₂ : job₂.stage = .returned built₂)
    (hshape : job₁.demand.key.lambda.sameShape job₂.demand.key.lambda = true) :
    built₁ = built₂ := by
  have hs₁ := h.serves job₁ h₁
  have hs₂ := h.serves job₂ h₂
  rw [hr₁] at hs₁
  rw [hr₂] at hs₂
  have hfind := t.cache.find?_ofLambda_congr hshape
  rw [Demand.ofLambda_key, Demand.ofLambda_key, hs₁, hs₂] at hfind
  exact Option.some.inj hfind

/-- No entry came out of a compilation that failed. -/
theorem Inv.serial_ne_of_failed (h : t.Inv) {job : Job ε} (hjob : job ∈ t.jobs) {serial : Nat}
    {err : ε} (hfailed : job.stage = .failed serial err) {entry : Entry}
    (hentry : entry ∈ t.cache.entries) : entry.built.serial ≠ serial := by
  have hpending : serial ∈ t.pending := by
    refine List.mem_filterMap.mpr ⟨job, hjob, ?_⟩
    rw [hfailed]
    rfl
  have hserial : entry.built.serial ∈ t.cache.serials := List.mem_map_of_mem hentry
  obtain ⟨-, -, hdisjoint⟩ := List.nodup_append.mp h.books.nodup
  exact (hdisjoint serial hpending _ hserial).symm

/-- When all calls are over, those that hold a compilation are those that failed. -/
theorem length_pending (hover : ∀ job ∈ t.jobs, job.stage.Over) :
    t.pending.length = t.failures := by
  rw [pending, failures, List.length_filterMap_eq_countP]
  refine List.countP_congr fun job hjob => ?_
  rw [(hover job hjob).isSome_serial?]

theorem cache_finish (t : Traffic ε) (i : Nat) (result : Except ε Artifact) :
    (t.step (.finish i result)).cache = t.cache := by
  rw [step]
  split <;> rfl

/-- In every state that calls can reach, in whatever order their steps follow each
other: no two entries have one shape; no entry is ever changed or removed; a call
that returned an artifact would find that artifact, so that all calls for one shape
return one artifact; no entry comes out of a compilation that fails; and when all
calls are over, every compilation is that of an entry, came second or failed. -/
theorem interleaving_safe (events : List (Event ε)) :
    let t := empty.run events
    t.cache.entries.Pairwise (fun x y => x.key.lambda.sameShape y.key.lambda = false) ∧
    (∀ more, t.cache.entries <+: (t.run more).cache.entries) ∧
    (∀ job ∈ t.jobs, ∀ built, job.stage = .returned built →
      t.cache.find? job.demand.key = some built) ∧
    (∀ job₁ ∈ t.jobs, ∀ job₂ ∈ t.jobs, ∀ built₁ built₂, job₁.stage = .returned built₁ →
      job₂.stage = .returned built₂ →
      job₁.demand.key.lambda.sameShape job₂.demand.key.lambda = true → built₁ = built₂) ∧
    (∀ i err, (t.step (.finish i (.error err))).cache = t.cache) ∧
    (∀ job ∈ t.jobs, ∀ serial err, job.stage = .failed serial err →
      ∀ entry ∈ t.cache.entries, entry.built.serial ≠ serial) ∧
    ((∀ job ∈ t.jobs, job.stage.Over) →
      t.cache.compiles = t.cache.size + t.cache.racesLost + t.failures) := by
  intro t
  have h : t.Inv := inv_run events inv_empty
  refine ⟨h.orderly.distinct, t.prefix_run, ?_, ?_, ?_, ?_, ?_⟩
  · intro job hjob built hbuilt
    have hserves := h.serves job hjob
    rwa [hbuilt] at hserves
  · intro job₁ h₁ job₂ h₂ built₁ built₂ hr₁ hr₂ hshape
    exact h.returned_congr h₁ h₂ hr₁ hr₂ hshape
  · intro i err
    exact t.cache_finish i (.error err)
  · intro job hjob serial err hfailed entry hentry
    exact h.serial_ne_of_failed hjob hfailed hentry
  · intro hover
    have hcount := h.books.count
    rw [length_pending hover] at hcount
    omega

-- Both calls find nothing and compile; the call that publishes second gets what the
-- first one published.
example :
    let t := (empty : Traffic CompileError).run [.call (.handle .rebinding),
      .call (.handle .rebindingSpread), .advance 0, .advance 1, .advance 0, .advance 1, .advance 0,
      .advance 1, .finish 0 (.ok default), .finish 1 (.ok default), .advance 1, .advance 0]
    t.jobs.map (fun job => job.stage.answer?.map (·.map Built.serial))
        = [some (.ok 1), some (.ok 1)] ∧
      (t.cache.size, t.cache.compiles, t.cache.racesLost) = (1, 2, 1) := by
  decide +kernel

end Traffic

end Stencil
