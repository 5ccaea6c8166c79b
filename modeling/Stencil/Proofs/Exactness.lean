import Stencil.Proofs.Soundness
import Stencil.Proofs.Wide

/-!
# Evaluation is exact or stops

The interpreter and code are given a second meaning on wide values
(`Lambda.interpretExact`, `Artifact.callExact`). The evaluation in 64 bits follows it:
along the nesting for the interpreter (`Arena.follows_eval`), along the code for a call
(`Code.follows_run`). Nothing is assumed about the expression, which may be malformed and
contain itself, nor about the code, which need not come from lowering. Both meanings of an
expression are found by raising the depth, and it does not matter at which depth they are
found (`Lambda.interpret_eq_iff`, `Lambda.interpretExact_eq_some_iff`, `Follows.deepen`).

So no integer is ever wrong (`integers_exact_or_fail`). A value that is returned is the
exact one, at any depth inside of lists, and if there is an exact value and it is not
returned, the evaluation says that a number was out of range.
-/

namespace Stencil

/-! ### The interpreter -/

/-- The bindings with wide values. -/
def widenScope (scope : List (Nat × Value)) : List (Nat × Wide) :=
  scope.map (Prod.map id Value.widen)

/-- The value of a node that is nested less than `depth` deep, on wide values. -/
def Arena.evalExact (a : Arena) (args : Array Wide) :
    (depth : Nat) → (scope : List (Nat × Wide)) → NodeId → Option Wide
  | 0, _, _ => none
  | depth + 1, scope, id =>
    match a.get? id with
    | none => none
    | some ⟨kind, ty⟩ =>
      match kind with
      | .const value => some value.widen
      | .param index => args[index]?
      | .localVar slot => (scope.find? fun binding => binding.1 = slot).map Prod.snd
      | .unary op x => do
        let x ← a.evalExact args depth scope x
        op.exact x
      | .binary op l r => do
        let l ← a.evalExact args depth scope l
        if op.decidesExact l then some l
        else do
          let r ← a.evalExact args depth scope r
          op.exact l r
      | .ite c t e => do
        match ← a.evalExact args depth scope c with
        | .bool true => a.evalExact args depth scope t
        | .bool false => a.evalExact args depth scope e
        | _ => none
      | .letIn slot i b => do
        let v ← a.evalExact args depth scope i
        a.evalExact args depth ((slot, v) :: scope) b
      | .list items =>
        match ty.elem? with
        | none => none
        | some elem =>
          match a.list? items with
          | none => none
          | some ids => do return .list elem (← ids.mapM (a.evalExact args depth scope))
      | .index r i => do
        let r ← a.evalExact args depth scope r
        let i ← a.evalExact args depth scope i
        r.index i
      | .call f items =>
        match a.list? items with
        | none => none
        | some ids => do
          let vs ← ids.mapM (a.evalExact args depth scope)
          f.exact vs

/-- The value at the first of `start`, `2 * start + 1` and so on that is deep enough. -/
def deepenExact {α : Type} (attempt : Nat → Option α) (start : Nat) : Option α :=
  attempt (enough (fun depth => (attempt depth).isSome) start)

/-- The value of an expression on wide arguments, at whatever depth there is one. -/
def Lambda.interpretExact (e : Lambda) (args : List Wide) : Option Wide :=
  if args.map Wide.ty = e.paramTypes then
    deepenExact (fun depth => e.arena.evalExact args.toArray depth [] e.root) (e.arena.size + 1)
  else none

theorem lookupSlot_widenScope (scope : List (Nat × Value)) (slot : Nat) :
    ((widenScope scope).find? fun binding => binding.1 = slot).map Prod.snd
      = (lookupSlot scope slot).map Value.widen := by
  rw [widenScope, List.find?_map, lookupSlot, Option.map_map, Option.map_map]
  rfl

theorem Follows.mapM {α : Type} {eval : α → Except Stop Value} {exact : α → Option Wide}
    (h : ∀ x, Follows Value.widen (eval x) (exact x)) (xs : List α) :
    Follows (List.map Value.widen) (xs.mapM eval) (xs.mapM exact) := by
  induction xs with
  | nil => exact .ok _
  | cons x xs ih =>
    rw [List.mapM_cons, List.mapM_cons]
    refine (h x).bind fun v => ?_
    refine ih.bind fun vs => ?_
    exact .ok _

/-- The interpreter follows the exact evaluation of every node, in every scope. -/
theorem Arena.follows_eval (a : Arena) (args : Array Value) (depth : Nat)
    (scope : List (Nat × Value)) (id : NodeId) :
    Follows Value.widen (a.eval args depth scope id)
      (a.evalExact (args.map Value.widen) depth (widenScope scope) id) := by
  -- on the depth and not on the form: a malformed expression has none
  induction depth generalizing scope id with
  | zero => exact .failed _
  | succ depth ih =>
    rw [eval, evalExact]
    cases a.get? id with
    | none => exact .failed _
    | some node =>
      obtain ⟨kind, ty⟩ := node
      cases kind with
      | const value => exact .ok _
      | param index =>
        simp only [Array.getElem?_map]
        exact .definedOr _
      | localVar slot =>
        simp only [lookupSlot_widenScope]
        exact .definedOr _
      | unary op x =>
        refine (ih scope x).bind fun v => ?_
        exact op.follows_apply v
      | binary op l r =>
        refine (ih scope l).bind fun v => ?_
        rw [op.decidesExact_widen v]
        by_cases hdecides : op.decides v = true
        · rw [if_pos hdecides, if_pos hdecides]
          exact .ok _
        · rw [if_neg hdecides, if_neg hdecides]
          refine (ih scope r).bind fun w => ?_
          exact op.follows_apply v w
      | ite c t e =>
        refine (ih scope c).bind fun v => ?_
        cases v with
        | bool b =>
          cases b with
          | true => exact ih scope t
          | false => exact ih scope e
        | _ => exact .failed _
      | letIn slot i b =>
        refine (ih scope i).bind fun v => ?_
        exact ih ((slot, v) :: scope) b
      | list items =>
        dsimp only
        cases ty.elem? with
        | none => exact .failed _
        | some elem =>
          cases a.list? items with
          | none => exact .failed _
          | some ids =>
            refine (Follows.mapM (ih scope) ids).bind fun vs => ?_
            rw [← Value.widen_list]
            exact .ok _
      | index r i =>
        refine (ih scope r).bind fun v => ?_
        refine (ih scope i).bind fun w => ?_
        exact v.follows_index w
      | call f items =>
        dsimp only
        cases a.list? items with
        | none => exact .failed _
        | some ids =>
          refine (Follows.mapM (ih scope) ids).bind fun vs => ?_
          exact f.follows_apply vs

/-- The second value is the first, if there is a first. -/
def Extends {α : Type} (o o' : Option α) : Prop := ∀ w, o = some w → o' = some w

namespace Extends

variable {α β : Type}

theorem refl (o : Option α) : Extends o o := fun _ h => h

theorem none (o : Option α) : Extends Option.none o := nofun

/-- Values that stay are handed on, so what is made of them stays too. -/
theorem bind {o o' : Option α} {next next' : α → Option β} (h : Extends o o')
    (hnext : ∀ w, Extends (next w) (next' w)) : Extends (o >>= next) (o' >>= next') := by
  cases o with
  | none => exact .none _
  | some w =>
    rw [h w rfl]
    exact hnext w

theorem mapM {eval eval' : α → Option β} (h : ∀ x, Extends (eval x) (eval' x)) (xs : List α) :
    Extends (xs.mapM eval) (xs.mapM eval') := by
  induction xs with
  | nil => exact .refl _
  | cons x xs ih =>
    rw [List.mapM_cons, List.mapM_cons]
    refine (h x).bind fun w => ?_
    refine ih.bind fun ws => ?_
    exact .refl _

end Extends

/-- An exact value is the exact value at every greater depth. -/
theorem Arena.extends_evalExact (a : Arena) (args : Array Wide) {depth depth' : Nat}
    (hle : depth ≤ depth') (scope : List (Nat × Wide)) (id : NodeId) :
    Extends (a.evalExact args depth scope id) (a.evalExact args depth' scope id) := by
  induction depth generalizing depth' scope id with
  | zero => exact .none _
  | succ depth ih =>
    obtain ⟨depth', rfl⟩ : ∃ n, depth' = n + 1 := ⟨depth' - 1, by omega⟩
    have hchild (scope) (id) :
        Extends (a.evalExact args depth scope id) (a.evalExact args depth' scope id) :=
      ih (Nat.le_of_succ_le_succ hle) scope id
    rw [evalExact, evalExact]
    cases a.get? id with
    | none => exact .refl _
    | some node =>
      obtain ⟨kind, ty⟩ := node
      cases kind with
      | const | param | localVar => exact .refl _
      | unary op x =>
        refine (hchild scope x).bind fun v => ?_
        exact .refl _
      | binary op l r =>
        refine (hchild scope l).bind fun v => ?_
        by_cases hdecides : op.decidesExact v = true
        · rw [if_pos hdecides, if_pos hdecides]
          exact .refl _
        · rw [if_neg hdecides, if_neg hdecides]
          refine (hchild scope r).bind fun w => ?_
          exact .refl _
      | ite c t e =>
        refine (hchild scope c).bind fun v => ?_
        cases v with
        | bool b =>
          cases b with
          | true => exact hchild scope t
          | false => exact hchild scope e
        | _ => exact .refl _
      | letIn slot i b =>
        refine (hchild scope i).bind fun v => ?_
        exact hchild ((slot, v) :: scope) b
      | list items =>
        dsimp only
        cases ty.elem? with
        | none => exact .refl _
        | some elem =>
          cases a.list? items with
          | none => exact .refl _
          | some ids =>
            refine (Extends.mapM (hchild scope) ids).bind fun vs => ?_
            exact .refl _
      | index r i =>
        refine (hchild scope r).bind fun v => ?_
        refine (hchild scope i).bind fun w => ?_
        exact .refl _
      | call f items =>
        dsimp only
        cases a.list? items with
        | none => exact .refl _
        | some ids =>
          refine (Extends.mapM (hchild scope) ids).bind fun vs => ?_
          exact .refl _

/-- Depths that give a value give the same. -/
theorem Extends.agree {α : Type} {attempt : Nat → Option α}
    (hmono : ∀ {m n}, m ≤ n → Extends (attempt m) (attempt n)) {m n : Nat} {v w : α}
    (hv : attempt m = some v) (hw : attempt n = some w) : v = w := by
  rcases Nat.le_total m n with hle | hle
  · rw [hmono hle v hv] at hw
    exact Option.some.inj hw
  · rw [hmono hle w hw] at hv
    exact (Option.some.inj hv).symm

/-- The exact value is the one at some depth, and at no depth there is another. -/
theorem deepenExact_eq_some_iff {α : Type} {attempt : Nat → Option α} {start : Nat} {w : α}
    (hmono : ∀ {m n}, m ≤ n → Extends (attempt m) (attempt n)) :
    deepenExact attempt start = some w ↔ ∃ depth, attempt depth = some w := by
  constructor
  · intro h
    exact ⟨_, h⟩
  · rintro ⟨depth, hdepth⟩
    have hdone : ∀ {m n}, m ≤ n → (attempt m).isSome = true → (attempt n).isSome = true := by
      intro m n hle hm
      obtain ⟨v, hv⟩ := Option.isSome_iff_exists.mp hm
      rw [hmono hle v hv]
      rfl
    obtain ⟨v, hv⟩ := Option.isSome_iff_exists.mp
      (done_enough hdone (Option.isSome_of_eq_some hdepth) start)
    rw [deepenExact, hv, Extends.agree hmono hv hdepth]

/-- On wide arguments of the declared types, an expression has the value that its root has
at some depth. -/
theorem Lambda.interpretExact_eq_some_iff {e : Lambda} {args : List Wide} {w : Wide} :
    e.interpretExact args = some w ↔ args.map Wide.ty = e.paramTypes ∧
      ∃ depth, e.arena.evalExact args.toArray depth [] e.root = some w := by
  unfold interpretExact
  by_cases htypes : args.map Wide.ty = e.paramTypes
  · rw [if_pos htypes, deepenExact_eq_some_iff
      fun hle => e.arena.extends_evalExact args.toArray hle [] e.root]
    exact ⟨fun h => ⟨htypes, h⟩, And.right⟩
  · rw [if_neg htypes]
    constructor
    · nofun
    · rintro ⟨h, -⟩
      exact absurd h htypes

/-- If an evaluation follows the exact one at every depth, it does so with the depth
raised. -/
theorem Follows.deepen {α β : Type} {f : α → β} {attempt : Nat → Except Stop α}
    {exact : Nat → Option β} {start : Nat} (h : ∀ depth, Follows f (attempt depth) (exact depth))
    (hattempt : ∀ {m n}, m ≤ n → Deepens (attempt m) (attempt n))
    (hexact : ∀ {m n}, m ≤ n → Extends (exact m) (exact n)) :
    Follows f (deepen attempt start) (deepenExact exact start) := by
  -- what an attempt comes to is what comes out, so each depth can speak for the whole
  have hsome {w} : deepenExact exact start = some w ↔ ∃ depth, exact depth = some w :=
    deepenExact_eq_some_iff hexact
  cases hr : Stencil.deepen attempt start with
  | ok v =>
    obtain ⟨depth, hdepth⟩ := (deepen_eq_iff (r := .ok v) hattempt nofun).mp hr
    have hv := h depth
    rw [hdepth] at hv
    exact hsome.mpr ⟨depth, hv⟩
  | error stop =>
    cases hw : deepenExact exact start with
    | none => exact .failed stop
    | some w =>
      obtain ⟨depth, hdepth⟩ := hsome.mp hw
      have hv := h depth
      rw [hdepth] at hv
      cases hattempted : attempt depth with
      | ok v =>
        rw [(deepen_eq_iff (r := .ok v) hattempt nofun).mpr ⟨depth, hattempted⟩] at hr
        cases hr
      | error early =>
        rw [hattempted] at hv
        have hout : early.outOfRange = true := hv.resolve_right nofun
        have hends : (.error early : Except Stop α) ≠ .error .unfinished := by
          rintro ⟨⟩
          cases hout
        rw [(deepen_eq_iff hattempt hends).mpr ⟨depth, hattempted⟩] at hr
        cases hr
        exact .stopped hout _

/-! ### Code -/

namespace Code

mutual

/-- The value of the code and the cells after it, on wide values. -/
def runExact (args : Array Wide) : Code → Array Wide → Option (Wide × Array Wide)
  | const v, cells => some (v.widen, cells)
  | arg i, cells => do return (← args[i]?, cells)
  | cell i, cells => do return (← cells[i]?, cells)
  | unary op x, cells => do
    let (x, cells) ← x.runExact args cells
    return (← op.exact x, cells)
  | binary op l r, cells => do
    let (l, cells) ← l.runExact args cells
    let (r, cells) ← r.runExact args cells
    return (← op.exact l r, cells)
  | and l r, cells => do
    let (l, cells) ← l.runExact args cells
    match l with
    | .bool true => r.runExact args cells
    | _ => some (l, cells)
  | or l r, cells => do
    let (l, cells) ← l.runExact args cells
    match l with
    | .bool false => r.runExact args cells
    | _ => some (l, cells)
  | ite c t e, cells => do
    let (c, cells) ← c.runExact args cells
    match c with
    | .bool true => t.runExact args cells
    | .bool false => e.runExact args cells
    | _ => none
  | store i init body, cells => do
    let (v, cells) ← init.runExact args cells
    if i < cells.size then body.runExact args (cells.setIfInBounds i v) else none
  | list elem xs, cells => do
    let (vs, cells) ← runAllExact args xs cells
    return (.list elem vs, cells)
  | index r i, cells => do
    let (r, cells) ← r.runExact args cells
    let (i, cells) ← i.runExact args cells
    return (← r.index i, cells)
  | call f xs, cells => do
    let (vs, cells) ← runAllExact args xs cells
    return (← f.exact vs, cells)

def runAllExact (args : Array Wide) : List Code → Array Wide → Option (List Wide × Array Wide)
  | [], cells => some ([], cells)
  | x :: xs, cells => do
    let (v, cells) ← x.runExact args cells
    let (vs, cells) ← runAllExact args xs cells
    return (v :: vs, cells)

end

/-- A value and the cells that it leaves, widened. -/
abbrev widenState : Value × Array Value → Wide × Array Wide :=
  Prod.map Value.widen (Array.map Value.widen)

abbrev widenStates : List Value × Array Value → List Wide × Array Wide :=
  Prod.map (List.map Value.widen) (Array.map Value.widen)

theorem follows_inBounds (v : Option Value) :
    Follows Value.widen (inBounds v) (v.map Value.widen) := by
  cases v with
  | some v => exact .ok _
  | none => exact .failed _

/-- An operation that is done with the cells left as they are. -/
theorem follows_keeping {r : Except Stop Value} {o : Option Wide} (h : Follows Value.widen r o)
    (cells : Array Value) :
    Follows widenState (do return (← r, cells)) (do return (← o, cells.map Value.widen)) :=
  h.bind fun _ => .ok _

mutual

/-- Code follows its exact run, from every state of the cells. -/
theorem follows_run (args : Array Value) : (code : Code) → (cells : Array Value) →
    Follows widenState (code.run args cells)
      (code.runExact (args.map Value.widen) (cells.map Value.widen))
  | const v, cells => .ok _
  | arg i, cells => by
    rw [run, runExact, Array.getElem?_map]
    exact follows_keeping (follows_inBounds _) cells
  | cell i, cells => by
    rw [run, runExact, Array.getElem?_map]
    exact follows_keeping (follows_inBounds _) cells
  | unary op x, cells => by
    refine (follows_run args x cells).bind fun ⟨v, cells⟩ => ?_
    exact follows_keeping (op.follows_apply v) cells
  | binary op l r, cells => by
    refine (follows_run args l cells).bind fun ⟨v, cells⟩ => ?_
    refine (follows_run args r cells).bind fun ⟨w, cells⟩ => ?_
    exact follows_keeping (op.follows_apply v w) cells
  | and l r, cells => by
    refine (follows_run args l cells).bind fun ⟨v, cells⟩ => ?_
    cases v with
    | bool b =>
      cases b with
      | true => exact follows_run args r cells
      | false => exact .ok _
    -- what is no boolean is handed on
    | _ => exact .ok _
  | or l r, cells => by
    refine (follows_run args l cells).bind fun ⟨v, cells⟩ => ?_
    cases v with
    | bool b =>
      cases b with
      | true => exact .ok _
      | false => exact follows_run args r cells
    | _ => exact .ok _
  | ite c t e, cells => by
    refine (follows_run args c cells).bind fun ⟨v, cells⟩ => ?_
    cases v with
    | bool b =>
      cases b with
      | true => exact follows_run args t cells
      | false => exact follows_run args e cells
    | _ => exact .failed _
  | store i init body, cells => by
    refine (follows_run args init cells).bind fun ⟨v, cells⟩ => ?_
    simp only [Prod.map, Array.size_map]
    by_cases hi : i < cells.size
    · rw [if_pos hi, if_pos hi, ← Array.map_setIfInBounds]
      exact follows_run args body _
    · rw [if_neg hi, if_neg hi]
      exact .failed _
  | list elem xs, cells => by
    refine (follows_runAll args xs cells).bind fun ⟨vs, cells⟩ => ?_
    simp only [Prod.map, ← Value.widen_list]
    exact .ok _
  | index r i, cells => by
    refine (follows_run args r cells).bind fun ⟨v, cells⟩ => ?_
    refine (follows_run args i cells).bind fun ⟨w, cells⟩ => ?_
    exact follows_keeping (v.follows_index w) cells
  | call f xs, cells => by
    refine (follows_runAll args xs cells).bind fun ⟨vs, cells⟩ => ?_
    exact follows_keeping (f.follows_apply vs) cells

theorem follows_runAll (args : Array Value) : (codes : List Code) → (cells : Array Value) →
    Follows widenStates (runAll args codes cells)
      (runAllExact (args.map Value.widen) codes (cells.map Value.widen))
  | [], cells => .ok _
  | x :: xs, cells => by
    refine (follows_run args x cells).bind fun ⟨v, cells⟩ => ?_
    refine (follows_runAll args xs cells).bind fun ⟨vs, cells⟩ => ?_
    exact .ok _

end

end Code

/-- The code on a wide argument vector, once its types are checked. -/
def Artifact.callExact (art : Artifact) (args : List Wide) : Option Wide :=
  if args.map Wide.ty = art.paramTypes then do
    let (v, _) ← art.code.runExact args.toArray (Array.replicate art.cells .unit)
    return v
  else none

/-! ### Whole evaluations -/

/-- Wide arguments are checked like the arguments that they come from. -/
theorem Follows.checkArgs {types : List Ty} {args : List Value} {r : Except Stop Value}
    {o : Option Wide} (h : Follows Value.widen r o) :
    Follows Value.widen (Stop.lift (checkArgs types args) >>= fun _ => r)
      (if (args.map Value.widen).map Wide.ty = types then o else none) := by
  have htypes : (args.map Value.widen).map Wide.ty = args.map Value.ty := by
    rw [List.map_map]
    exact List.map_congr_left fun v _ => v.ty_widen
  have hok : Stencil.checkArgs types args = .ok () ↔ args.map Value.ty = types := by
    rw [checkArgs_eq_ok_iff, ← List.forall₂_map_left_iff (f := Value.ty), List.forall₂_eq_eq_eq]
  rw [htypes]
  cases hcheck : Stencil.checkArgs types args with
  | ok _ =>
    rw [if_pos (hok.mp hcheck)]
    exact h
  | error cause =>
    refine .inr (if_neg ?_)
    intro heq
    rw [hok.mpr heq] at hcheck
    cases hcheck

theorem Lambda.follows_interpret (e : Lambda) (args : List Value) :
    Follows Value.widen (e.interpret args) (e.interpretExact (args.map Value.widen)) := by
  have heval (depth) := e.arena.follows_eval args.toArray depth [] e.root
  rw [List.map_toArray] at heval
  refine Follows.checkArgs (Follows.deepen heval ?_ ?_)
  · intro m n hle
    exact e.arena.deepens_eval args.toArray hle [] e.root
  · intro m n hle
    exact e.arena.extends_evalExact _ hle [] e.root

theorem Artifact.follows_call (art : Artifact) (args : List Value) :
    Follows Value.widen (art.call args) (art.callExact (args.map Value.widen)) := by
  have hrun := art.code.follows_run args.toArray (Array.replicate art.cells .unit)
  rw [List.map_toArray, Array.map_replicate] at hrun
  refine Follows.checkArgs (hrun.bind fun ⟨v, cells⟩ => ?_)
  exact .ok v

/-- What an evaluation comes to, given what it comes to on wide values. -/
structure ExactOrStops (r : Except Stop Value) (o : Option Wide) : Prop where
  /-- A value is the exact one, and its integers are in range. -/
  exact : ∀ v, r = .ok v → o = some v.widen ∧ ∀ n ∈ v.widen.ints, InRange n
  /-- An exact value is missed only because a number was out of range on the way. -/
  stops : ∀ w, o = some w →
    (∃ v, r = .ok v ∧ v.widen = w) ∨ ∃ stop, r = .error stop ∧ stop.outOfRange = true

theorem Follows.exactOrStops {r : Except Stop Value} {o : Option Wide}
    (h : Follows Value.widen r o) : ExactOrStops r o where
  exact := by
    rintro v rfl
    exact ⟨h, v.inRange_of_mem_ints⟩
  stops := by
    rintro w rfl
    cases r with
    | ok v => exact .inl ⟨v, rfl, (Option.some.inj h).symm⟩
    | error stop =>
      rcases h with hstop | hnone
      · exact .inr ⟨stop, rfl, hstop⟩
      · cases hnone

/-- Integer operations are exact or fail, and so are evaluations. The operators return
the exact result where it is in range and report an overflow where it is not, and
division goes toward zero. Values hold the integers in range and no others. What the
interpreter or code returns on them is what unbounded integers give: for every node at
every depth, for every expression however deep it goes, and for all code. -/
theorem integers_exact_or_fail :
    (∀ a b : Int64,
      ExactOr "addition" (a.toInt + b.toInt) (BinaryOp.add.apply (.int a) (.int b)) ∧
      ExactOr "subtraction" (a.toInt - b.toInt) (BinaryOp.sub.apply (.int a) (.int b)) ∧
      ExactOr "multiplication" (a.toInt * b.toInt) (BinaryOp.mul.apply (.int a) (.int b)) ∧
      ExactOr "negation" (-a.toInt) (UnaryOp.neg.apply (.int a)) ∧
      ExactOr "abs" a.toInt.natAbs (Builtin.abs.apply [.int a]) ∧
      DivisionLaw a b) ∧
    (∀ w : Wide, (∃ v : Value, v.widen = w) ↔ ∀ n ∈ w.ints, InRange n) ∧
    (∀ (a : Arena) (args : Array Value) (depth : Nat) (scope : List (Nat × Value)) (id : NodeId),
      ExactOrStops (a.eval args depth scope id)
        (a.evalExact (args.map Value.widen) depth (widenScope scope) id)) ∧
    (∀ (e : Lambda) (args : List Value),
      ExactOrStops (e.interpret args) (e.interpretExact (args.map Value.widen))) ∧
    (∀ (art : Artifact) (args : List Value),
      ExactOrStops (art.call args) (art.callExact (args.map Value.widen))) := by
  refine ⟨?_, Wide.exists_widen_iff, ?_, ?_, ?_⟩
  · intro a b
    have habs : ExactOr "abs" a.toInt.natAbs (Builtin.abs.apply [.int a]) := by
      rw [Builtin.apply_abs]
      exact exactOr_checkedInt _ _
    exact ⟨exactOr_checkedInt _ _, exactOr_checkedInt _ _, exactOr_checkedInt _ _,
      exactOr_checkedInt _ _, habs, divisionLaw a b⟩
  · intro a args depth scope id
    exact (a.follows_eval args depth scope id).exactOrStops
  · intro e args
    exact (e.follows_interpret args).exactOrStops
  · intro art args
    exact (art.follows_call args).exactOrStops

/-- The least integer has no negation in range; `-n` stops on it, with an exact value. -/
example :
    let negated : Lambda :=
      ⟨[⟨"n", .int⟩], ⟨#[⟨.param 0, .int⟩, ⟨.unary .neg 0, .int⟩], #[]⟩, 1⟩
    negated.interpret [.int Int64.minValue] = .error (.error (.overflow "negation")) ∧
      negated.interpretExact [.int (-9223372036854775808)] = some (.int 9223372036854775808) :=
  ⟨rfl, Lambda.interpretExact_eq_some_iff.mpr ⟨rfl, 2, rfl⟩⟩

/-- An expression that contains itself, and leaves the circle deeper than it has nodes. -/
example : Lambda.counting.interpretExact [] = some (.int 10) :=
  Lambda.interpretExact_eq_some_iff.mpr ⟨rfl, 23, rfl⟩

end Stencil
