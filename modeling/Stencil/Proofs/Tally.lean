import Mathlib.Data.Finset.Card
import Stencil.Proofs.Session

/-!
# What the counters of a session tell

Over a session with a fresh compiler the cache keeps books: its entries, and each
of its counters, can be told from which compilations succeeded and which were
refused, in whatever order they came (`Compiler.session_law`).

The invariant is `Cache.Tallies`. One compilation is one of four things: the
expression is malformed and nothing happens, the shape is there and a hit is
counted, or a compilation is counted that either is refused or adds an entry
(`Cache.Tallies.compile`). What a call does after its compilation does not reach the
cache, and fails with errors of its own (`Error.IsLate`).
-/

namespace Stencil

/-- The expressions that have the shape of the given one. -/
def Lambda.shapeClass (e : Lambda) : Set Lambda := {d | e.sameShape d = true}

/-- The request failed after the compilation had succeeded. -/
def Error.IsLate : Error → Prop
  | extract _ | compile _ => False
  | arity _ _ | evaluation _ | signatureMismatch _ _ | resultMismatch _ _ => True

/-- The expression that a call compiles. -/
def Call.expr? : Call → Option Lambda
  | compile e | evaluate e _ | compileTyped e _ => some e
  | isCached _ => none

def errorOf? {α : Type} : Except Error α → Option Error
  | .ok _ => none
  | .error err => some err

namespace Compiler

variable {σ : Type}

/-- The error that a call ends in. -/
def callError? (c : Compiler σ) : Call → Option Error
  | .compile e => errorOf? (c.compile e).1
  | .evaluate e args => errorOf? (c.evaluate e args).1
  | .compileTyped e sig => errorOf? (c.compileTyped e sig).1
  | .isCached _ => none

/-- The expression of a call, if its compilation succeeds. -/
def compiled? (c : Compiler σ) (call : Call) : Option Lambda :=
  call.expr?.filter fun e => (c.compile e).1.isOk

/-- Whether a call ends in a compile error. -/
def refuses (c : Compiler σ) (call : Call) : Bool :=
  match c.callError? call with
  | some (.compile _) => true
  | _ => false

/-- The calls of a session, each with the compiler that it was made on. -/
def history (c : Compiler σ) : List Call → List (Compiler σ × Call)
  | [] => []
  | call :: calls => (c, call) :: (c.after call).history calls

/-- The expressions whose compilation succeeded in a session. -/
def successes (c : Compiler σ) (calls : List Call) : List Lambda :=
  (c.history calls).filterMap fun (before, call) => before.compiled? call

/-- How many calls of a session ended in a compile error. -/
def refusals (c : Compiler σ) (calls : List Call) : Nat :=
  (c.history calls).countP fun (before, call) => before.refuses call

open Classical in
/-- The shapes of the expressions whose compilation succeeded in a session. -/
noncomputable def shapes (c : Compiler σ) (calls : List Call) : Finset (Set Lambda) :=
  ((c.successes calls).map Lambda.shapeClass).toFinset

end Compiler

/-! ### Classes of shapes -/

namespace Lambda

theorem shapeClass_congr {a b : Lambda} (h : a.sameShape b = true) :
    a.shapeClass = b.shapeClass := by
  ext d
  exact ⟨sameShape_trans (sameShape_symm h), sameShape_trans h⟩

theorem shapeClass_eq_iff {a b : Lambda} (hb : b.sameShape b = true) :
    a.shapeClass = b.shapeClass ↔ a.sameShape b = true := by
  constructor
  · intro h
    have hmem : b ∈ b.shapeClass := hb
    rw [← h] at hmem
    exact hmem
  · exact shapeClass_congr

end Lambda

namespace Cache

/-- The shapes of the entries. -/
def shapes (c : Cache) : List (Set Lambda) := c.entries.map fun entry => entry.key.lambda.shapeClass

namespace Orderly

variable {c : Cache}

theorem nodup_shapes (hc : c.Orderly) : c.shapes.Nodup := by
  rw [shapes, List.nodup_iff_pairwise_ne, List.pairwise_map]
  refine hc.distinct.imp_of_mem fun {x y} _ hy hne heq => ?_
  rw [Lambda.shapeClass_eq_iff (hc.genuine y hy).sameShape_self, hne] at heq
  cases heq

theorem isSome_find?_iff_mem_shapes (hc : c.Orderly) {k : Key} (hk : k.Genuine) :
    (c.find? k).isSome = true ↔ k.lambda.shapeClass ∈ c.shapes := by
  rw [hc.isSome_find?_iff hk, shapes, List.mem_map]
  refine exists_congr fun entry => and_congr_right fun _ => ?_
  rw [Lambda.shapeClass_eq_iff hk.sameShape_self]

end Orderly

end Cache

/-! ### One compilation -/

namespace Cache

/-- The cache after a session in which the compilation of `built` succeeded and
`refused` calls ended in a compile error. -/
structure Tallies (c : Cache) (built : List Lambda) (refused : Nat) : Prop where
  orderly : c.Orderly
  shapes : ∀ s, s ∈ c.shapes ↔ s ∈ built.map Lambda.shapeClass
  compiles : c.compiles = c.size + refused
  hits : c.hits + c.size = built.length
  racesLost : c.racesLost = 0

theorem tallies_empty : empty.Tallies [] 0 := ⟨orderly_empty, fun _ => .rfl, rfl, rfl, rfl⟩

namespace Tallies

variable {c : Cache} {built : List Lambda} {refused : Nat}

/-- A success whose shape was there is a hit. -/
theorem hit (hc : c.Tallies built refused) {e : Lambda} (he : e.shapeClass ∈ c.shapes) :
    Tallies { c with hits := c.hits + 1 } (built ++ [e]) refused where
  orderly := ⟨hc.orderly.genuine, hc.orderly.distinct⟩
  shapes s := by
    show s ∈ c.shapes ↔ _
    rw [List.map_append, List.mem_append, ← hc.shapes]
    constructor
    · exact .inl
    · rintro (hs | hs)
      · exact hs
      · rwa [List.mem_singleton.mp hs]
  compiles := hc.compiles
  hits := by
    have hhits := hc.hits
    show c.hits + 1 + c.size = _
    rw [List.length_append, List.length_singleton]
    omega
  racesLost := hc.racesLost

/-- A refusal is a compilation without an entry. -/
theorem refuse (hc : c.Tallies built refused) :
    Tallies { c with compiles := c.compiles + 1 } built (refused + 1) where
  orderly := ⟨hc.orderly.genuine, hc.orderly.distinct⟩
  shapes := hc.shapes
  compiles := by
    have hcompiles := hc.compiles
    show c.compiles + 1 = c.size + (refused + 1)
    omega
  hits := hc.hits
  racesLost := hc.racesLost

/-- A success whose shape was not there is a compilation and an entry. -/
theorem add (hc : c.Tallies built refused) {k : Key} (hk : k.Genuine) (hnone : c.find? k = none)
    {e : Lambda} (he : k.lambda.shapeClass = e.shapeClass) (b : Built) :
    Tallies { c with compiles := c.compiles + 1, entries := c.entries ++ [⟨k, b⟩] }
      (built ++ [e]) refused where
  orderly := hc.orderly.append hk hnone rfl
  shapes s := by
    have hs := hc.shapes s
    simp only [Cache.shapes, List.map_append, List.mem_append, List.map_cons, List.map_nil,
      List.mem_singleton, he] at hs ⊢
    rw [hs]
  compiles := by
    have hcompiles := hc.compiles
    simp only [size, List.length_append, List.length_singleton] at hcompiles ⊢
    omega
  hits := by
    have hhits := hc.hits
    simp only [size, List.length_append, List.length_singleton] at hhits ⊢
    omega
  racesLost := hc.racesLost

/-- A compilation succeeds, is refused, or finds that the expression is malformed. -/
theorem compile {σ : Type} {c : Compiler σ} (hc : c.cache.Tallies built refused) (e : Lambda) :
    (∃ h x, (c.compile e).1 = .ok h ∧ e.extract = .ok x ∧
      (c.compile e).2.cache.Tallies (built ++ [e]) refused) ∨
    (∃ fault, (c.compile e).1 = .error (.compile fault) ∧
      (c.compile e).2.cache.Tallies built (refused + 1)) ∨
    (∃ fault, (c.compile e).1 = .error (.extract fault) ∧ (c.compile e).2.cache = c.cache) := by
  rw [Compiler.compile_eq]
  cases hx : e.extract with
  | error fault => exact .inr (.inr ⟨fault, rfl, rfl⟩)
  | ok x =>
    have hgenuine := Key.genuine_probe hx
    obtain ⟨f, hf, rfl⟩ := Lambda.extract_ok hx
    have hfound := hc.orderly.isSome_find?_iff_mem_shapes hgenuine
    rw [Lambda.shapeClass_congr (Key.sameShape_probe hf.form)] at hfound
    cases hfind : c.cache.find? (.probe e) with
    | some b =>
      rw [hfind] at hfound
      exact .inl ⟨_, _, rfl, rfl, hc.hit (hfound.mp rfl)⟩
    | none =>
      cases hlower : c.backend.lower (f.skeleton e.params) e.arity c.state with
      | mk result state =>
        cases result with
        | error fault =>
          simp only [hlower]
          exact .inr (.inl ⟨fault, rfl, hc.refuse⟩)
        | ok art =>
          -- the entry goes under the other key, which is not found either
          have hnone := c.cache.find?_canonical hf
          rw [hfind] at hnone
          have hclass := Lambda.shapeClass_congr (Key.sameShape_canonical hf)
          simp only [hlower]
          exact .inl ⟨_, _, rfl, rfl, hc.add (.canonical hx) hnone hclass _⟩

end Tallies

end Cache

/-! ### One call -/

theorem Handle.call_late {h : Handle} {args : List Value} {err : Error}
    (herr : h.call args = .error err) : err.IsLate := by
  unfold call Artifact.invoke at herr
  split at herr
  next =>
    cases hcall : h.artifact.call (h.values ++ args) with
    | ok v =>
      rw [hcall] at herr
      cases herr
    | error stop =>
      rw [hcall] at herr
      cases herr
      trivial
  next =>
    cases herr
    trivial

theorem Handle.typed_late {h : Handle} {sig : Signature} {err : Error}
    (herr : h.typed sig = .error err) : err.IsLate := by
  unfold typed at herr
  split at herr
  next => cases herr
  next =>
    cases herr
    trivial

/-- A request that goes on after a compilation with what fails late only. -/
theorem errorOf?_bind_late {α : Type} {use : Handle → Except Error α}
    (huse : ∀ h err, use h = .error err → err.IsLate) (result : Except Error Handle) :
    match result with
    | .ok _ => ∀ err, errorOf? (result.bind use) = some err → err.IsLate
    | .error err => errorOf? (result.bind use) = some err := by
  cases result with
  | error err => rfl
  | ok h =>
    intro err herr
    refine huse h err ?_
    cases huse' : use h with
    | ok a =>
      rw [Except.bind, huse'] at herr
      cases herr
    | error late =>
      rw [Except.bind, huse'] at herr
      cases herr
      rfl

namespace Compiler

variable {σ : Type} {c : Compiler σ} {call : Call}

theorem after_of_expr?_eq_none (h : call.expr? = none) : c.after call = c := by
  cases call with
  | isCached e => rfl
  | compile e | evaluate e args | compileTyped e sig => cases h

theorem after_of_expr? {e : Lambda} (h : call.expr? = some e) :
    c.after call = (c.compile e).2 := by
  cases call with
  | compile e' | evaluate e' args | compileTyped e' sig =>
    cases h
    rfl
  | isCached e' => cases h

/-- A call ends in the error of its compilation, or in a late one. -/
theorem callError?_of_expr? {e : Lambda} (h : call.expr? = some e) :
    match (c.compile e).1 with
    | .ok _ => ∀ err, c.callError? call = some err → err.IsLate
    | .error err => c.callError? call = some err := by
  cases call with
  | compile e' =>
    cases h
    show match (c.compile e).1 with
      | .ok _ => ∀ err, errorOf? (c.compile e).1 = some err → err.IsLate
      | .error err => errorOf? (c.compile e).1 = some err
    cases (c.compile e).1 with
    | ok h => exact fun err herr => by cases herr
    | error err => rfl
  | evaluate e' args =>
    cases h
    exact errorOf?_bind_late (fun _ _ => Handle.call_late) (c.compile e).1
  | compileTyped e' sig =>
    cases h
    exact errorOf?_bind_late (fun _ _ => Handle.typed_late) (c.compile e).1
  | isCached e' => cases h

theorem refuses_of_late (h : ∀ err, c.callError? call = some err → err.IsLate) :
    c.refuses call = false := by
  unfold refuses
  split
  next fault hfault => exact absurd (h _ hfault) id
  next => rfl

theorem compiled?_of_expr? {e : Lambda} (h : call.expr? = some e) :
    c.compiled? call = if (c.compile e).1.isOk then some e else none := by
  rw [compiled?, h, Option.filter_some]

end Compiler

namespace Cache.Tallies

variable {σ : Type} {c : Compiler σ} {built : List Lambda} {refused : Nat}

/-- A call fails late if at all, is refused, or finds that its expression is malformed. -/
theorem call (hc : c.cache.Tallies built refused) {call : Call} {e : Lambda}
    (hexpr : call.expr? = some e) :
    (c.compiled? call = some e ∧ (∀ err, c.callError? call = some err → err.IsLate) ∧
      (∃ x, e.extract = .ok x) ∧ (c.after call).cache.Tallies (built ++ [e]) refused) ∨
    (∃ fault, c.compiled? call = none ∧ c.callError? call = some (.compile fault) ∧
      (c.after call).cache.Tallies built (refused + 1)) ∨
    (∃ fault, c.compiled? call = none ∧ c.callError? call = some (.extract fault) ∧
      (c.after call).cache = c.cache) := by
  have herr := Compiler.callError?_of_expr? (c := c) hexpr
  rw [Compiler.after_of_expr? hexpr, Compiler.compiled?_of_expr? hexpr]
  rcases hc.compile e with ⟨h, x, hok, hx, hstep⟩ | ⟨fault, hfail, hstep⟩ | ⟨fault, hfail, hstep⟩
  · rw [hok] at herr ⊢
    exact .inl ⟨rfl, herr, ⟨x, hx⟩, hstep⟩
  · rw [hfail] at herr ⊢
    exact .inr (.inl ⟨fault, rfl, herr, hstep⟩)
  · rw [hfail] at herr ⊢
    exact .inr (.inr ⟨fault, rfl, herr, hstep⟩)

/-- A call counts as a success, as a refusal or not at all. -/
theorem after (hc : c.cache.Tallies built refused) (call : Call) :
    (c.after call).cache.Tallies (built ++ (c.compiled? call).toList)
      (refused + (c.refuses call).toNat) := by
  cases hexpr : call.expr? with
  | none =>
    have hcompiled : c.compiled? call = none := by
      rw [Compiler.compiled?, hexpr]
      rfl
    have hrefuses : c.refuses call = false := by
      cases call with
      | isCached e => rfl
      | compile e | evaluate e args | compileTyped e sig => cases hexpr
    rw [Compiler.after_of_expr?_eq_none hexpr, hcompiled, hrefuses, Option.toList_none,
      List.append_nil]
    exact hc
  | some e =>
    rcases hc.call hexpr with ⟨hcompiled, hlate, -, hstep⟩ | ⟨fault, hcompiled, herr, hstep⟩ |
      ⟨fault, hcompiled, herr, hcache⟩
    · rw [hcompiled, Compiler.refuses_of_late hlate]
      exact hstep
    · rw [hcompiled, Compiler.refuses, herr, Option.toList_none, List.append_nil]
      exact hstep
    · rw [hcompiled, Compiler.refuses, herr, hcache, Option.toList_none, List.append_nil]
      exact hc

end Cache.Tallies

/-! ### A session -/

namespace Compiler

variable {σ : Type}

theorem history_concat (c : Compiler σ) (calls : List Call) (call : Call) :
    c.history (calls ++ [call]) = c.history calls ++ [(c.afterAll calls, call)] := by
  induction calls generalizing c with
  | nil => rfl
  | cons first calls ih =>
    show (c, first) :: (c.after first).history (calls ++ [call]) = _
    rw [ih]
    rfl

theorem successes_concat (c : Compiler σ) (calls : List Call) (call : Call) :
    c.successes (calls ++ [call])
      = c.successes calls ++ ((c.afterAll calls).compiled? call).toList := by
  rw [successes, history_concat, List.filterMap_append, successes]
  cases h : (c.afterAll calls).compiled? call <;> simp [h]

theorem refusals_concat (c : Compiler σ) (calls : List Call) (call : Call) :
    c.refusals (calls ++ [call])
      = c.refusals calls + ((c.afterAll calls).refuses call).toNat := by
  rw [refusals, history_concat, List.countP_append, refusals]
  cases h : (c.afterAll calls).refuses call <;> simp [h]

theorem afterAll_concat (c : Compiler σ) (calls : List Call) (call : Call) :
    c.afterAll (calls ++ [call]) = (c.afterAll calls).after call := by
  rw [afterAll, List.foldl_append]
  rfl

/-- The books are right after every session that begins with an empty cache. -/
theorem tallies_afterAll {c : Compiler σ} (hc : c.cache = .empty) (calls : List Call) :
    (c.afterAll calls).cache.Tallies (c.successes calls) (c.refusals calls) := by
  induction calls using List.reverseRecOn with
  | nil =>
    show c.cache.Tallies [] 0
    rw [hc]
    exact Cache.tallies_empty
  | append_singleton calls call ih =>
    rw [afterAll_concat, successes_concat, refusals_concat]
    exact ih.after call

end Compiler

namespace Cache.Tallies

variable {c : Cache} {built : List Lambda} {refused : Nat}

open Classical in
theorem size_eq_card (hc : c.Tallies built refused) :
    c.size = (built.map Lambda.shapeClass).toFinset.card := by
  have hshapes : (built.map Lambda.shapeClass).toFinset = c.shapes.toFinset := by
    ext s
    rw [List.mem_toFinset, List.mem_toFinset, hc.shapes]
  rw [hshapes, List.toFinset_card_of_nodup hc.orderly.nodup_shapes]
  exact (List.length_map _).symm

theorem isCached_iff {σ : Type} {c : Compiler σ} (hc : c.cache.Tallies built refused) (e : Lambda) :
    c.isCached e = true ↔
      (∃ x, e.extract = .ok x) ∧ e.shapeClass ∈ built.map Lambda.shapeClass := by
  rw [Compiler.isCached, Lambda.keyAndValues_eq]
  cases hx : e.extract with
  | error fault => simp [Except.map]
  | ok x =>
    obtain ⟨f, hf, -⟩ := Lambda.extract_ok hx
    have hprobe := Lambda.shapeClass_congr (Key.sameShape_probe hf.form)
    have hfound := hc.orderly.isSome_find?_iff_mem_shapes (Key.genuine_probe hx)
    rw [hprobe, hc.shapes] at hfound
    show (c.cache.find? (.probe e)).isSome = true ↔ _
    rw [hfound]
    exact ⟨fun h => ⟨⟨x, rfl⟩, h⟩, fun h => h.2⟩

theorem after_of_malformed {σ : Type} {c : Compiler σ} (hc : c.cache.Tallies built refused)
    {call : Call} (h : call.expr? = none ∨ ∃ fault, c.callError? call = some (.extract fault)) :
    (c.after call).cache = c.cache := by
  cases hexpr : call.expr? with
  | none => rw [Compiler.after_of_expr?_eq_none hexpr]
  | some e =>
    rcases h with h | ⟨fault, hfault⟩
    · rw [hexpr] at h
      cases h
    · rcases hc.call hexpr with ⟨-, hlate, -⟩ | ⟨fault', -, herr, -⟩ | ⟨-, -, -, hcache⟩
      -- an expression that compiles does not turn out malformed later
      · exact absurd (hlate _ hfault) id
      · cases herr.symm.trans hfault
      · exact hcache

theorem isCached_after_late {σ : Type} {c : Compiler σ} (hc : c.cache.Tallies built refused)
    {call : Call} {e : Lambda} {err : Error} (hexpr : call.expr? = some e)
    (hcall : c.callError? call = some err) (hlate : err.IsLate) :
    (c.after call).isCached e = true := by
  rcases hc.call hexpr with ⟨-, -, hx, hstep⟩ | ⟨fault, -, herr, -⟩ | ⟨fault, -, herr, -⟩
  · refine (hstep.isCached_iff e).mpr ⟨hx, ?_⟩
    exact List.mem_map.mpr ⟨e, List.mem_append_right built List.mem_cons_self, rfl⟩
  · cases herr.symm.trans hcall
    exact absurd hlate id
  · cases herr.symm.trans hcall
    exact absurd hlate id

end Cache.Tallies

namespace Compiler

theorem mem_shapes_iff {σ : Type} {c : Compiler σ} {calls : List Call} {s : Set Lambda} :
    s ∈ c.shapes calls ↔ s ∈ (c.successes calls).map Lambda.shapeClass := List.mem_toFinset

/-- The law of a session with a fresh compiler. There is one entry for each shape of
an expression whose compilation succeeded, and a well-formed expression is cached
exactly if it has one of these shapes. Compilations are counted once per shape and
once per call that ended in a compile error; all other successes are hits; no
publication comes second. A call on a malformed expression, and a question whether
an expression is cached, leave the cache alone; a call that fails late leaves its
expression cached. -/
theorem session_law (calls : List Call) :
    let c := isolated.afterAll calls
    let shapes := isolated.shapes calls
    c.cache.size = shapes.card ∧
    (∀ e, c.isCached e = true ↔ (∃ x, e.extract = .ok x) ∧ e.shapeClass ∈ shapes) ∧
    c.cache.compiles = shapes.card + isolated.refusals calls ∧
    c.cache.hits + shapes.card = (isolated.successes calls).length ∧
    c.cache.racesLost = 0 ∧
    (∀ call, call.expr? = none ∨ (∃ fault, c.callError? call = some (.extract fault)) →
      (c.after call).cache = c.cache) ∧
    (∀ call e err, call.expr? = some e → c.callError? call = some err → err.IsLate →
      (c.after call).isCached e = true) := by
  intro c shapes
  have hc : c.cache.Tallies _ _ := tallies_afterAll rfl calls
  have hsize : c.cache.size = shapes.card := hc.size_eq_card
  refine ⟨hsize, fun e => ?_, ?_, ?_, hc.racesLost, ?_, ?_⟩
  · rw [hc.isCached_iff, mem_shapes_iff]
  · rw [← hsize]
    exact hc.compiles
  · rw [← hsize]
    exact hc.hits
  · exact fun call => hc.after_of_malformed
  · exact fun call e err => hc.isCached_after_late

-- The second expression has the shape of the first one; calling it without its
-- arguments fails late.
example :
    let c := isolated.afterAll
      [.compile .rebinding, .isCached .rebinding, .evaluate .rebindingSpread []]
    (c.cache.size, c.cache.hits, c.cache.compiles, c.cache.racesLost) = (1, 1, 1, 0) := by
  decide +kernel

end Compiler

end Stencil
