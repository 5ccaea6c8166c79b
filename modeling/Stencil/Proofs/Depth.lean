import Stencil.Interpreter

/-!
# Evaluation at any depth

`Arena.eval` is given a depth, and `Lambda.interpret` gives it more until it ends. The depth
makes no difference to what comes out. An attempt that ends is repeated by every deeper one
(`Arena.deepens_eval`), whatever the references do. So an expression comes to what some depth
comes to, and to nothing else (`Lambda.interpret_eq_iff`).
-/

namespace Stencil

variable {α β : Type}

/-- The second result is the first, unless the first is unfinished. -/
def Deepens (r r' : Except Stop α) : Prop := r ≠ .error .unfinished → r' = r

namespace Deepens

theorem refl (r : Except Stop α) : Deepens r r := fun _ => rfl

theorem unfinished (r : Except Stop α) : Deepens (.error .unfinished) r := fun h => absurd rfl h

/-- Steps that are repeated at a greater depth are repeated one after the other. -/
theorem bind {r r' : Except Stop α} {next next' : α → Except Stop β} (h : Deepens r r')
    (hnext : ∀ v, Deepens (next v) (next' v)) : Deepens (r >>= next) (r' >>= next') := by
  intro hfinished
  cases r with
  | ok v =>
    rw [h (by nofun)]
    exact hnext v hfinished
  | error stop =>
    -- the stop is that of the whole, which is finished
    rw [h fun heq => hfinished (by cases heq; rfl)]
    rfl

theorem mapM {eval eval' : α → Except Stop β} (h : ∀ x, Deepens (eval x) (eval' x))
    (xs : List α) : Deepens (xs.mapM eval) (xs.mapM eval') := by
  induction xs with
  | nil => exact .refl _
  | cons x xs ih =>
    rw [List.mapM_cons, List.mapM_cons]
    refine (h x).bind fun v => ?_
    refine ih.bind fun vs => ?_
    exact .refl _

end Deepens

/-- A deeper attempt at a node repeats one that ends. -/
theorem Arena.deepens_eval (a : Arena) (args : Array Value) {depth depth' : Nat}
    (hle : depth ≤ depth') (scope : List (Nat × Value)) (id : NodeId) :
    Deepens (a.eval args depth scope id) (a.eval args depth' scope id) := by
  induction depth generalizing depth' scope id with
  | zero => exact .unfinished _
  | succ depth ih =>
    obtain ⟨depth', rfl⟩ : ∃ n, depth' = n + 1 := ⟨depth' - 1, by omega⟩
    have hchild (scope) (id) : Deepens (a.eval args depth scope id) (a.eval args depth' scope id) :=
      ih (Nat.le_of_succ_le_succ hle) scope id
    rw [eval, eval]
    cases a.get? id with
    | none => exact .refl _
    | some node =>
      obtain ⟨kind, ty⟩ := node
      cases kind with
      | const | param | localVar => exact .refl _
      | unary op x =>
        refine (hchild scope x).bind fun v => ?_
        exact .refl _
      | binary op l r =>
        refine (hchild scope l).bind fun v => ?_
        by_cases hdecides : op.decides v = true
        · rw [if_pos hdecides, if_pos hdecides]
          exact .refl _
        · rw [if_neg hdecides, if_neg hdecides]
          refine (hchild scope r).bind fun w => ?_
          exact .refl _
      | ite c t e =>
        refine (hchild scope c).bind fun v => ?_
        cases v with
        | bool b =>
          cases b with
          | true => exact hchild scope t
          | false => exact hchild scope e
        | _ => exact .refl _
      | letIn slot i b =>
        refine (hchild scope i).bind fun v => ?_
        exact hchild ((slot, v) :: scope) b
      | list items =>
        dsimp only
        cases ty.elem? with
        | none => exact .refl _
        | some elem =>
          cases a.list? items with
          | none => exact .refl _
          | some ids =>
            refine (Deepens.mapM (hchild scope) ids).bind fun vs => ?_
            exact .refl _
      | index r i =>
        refine (hchild scope r).bind fun v => ?_
        refine (hchild scope i).bind fun w => ?_
        exact .refl _
      | call f items =>
        dsimp only
        cases a.list? items with
        | none => exact .refl _
        | some ids =>
          refine (Deepens.mapM (hchild scope) ids).bind fun vs => ?_
          exact .refl _

/-! ### Raising the depth -/

section

variable {done : Nat → Bool} {depth : Nat}

/-- Raising the depth ends if some depth is enough, as it comes to that depth or ends before. -/
theorem acc_deeper (hmono : ∀ {m n}, m ≤ n → done m = true → done n = true)
    (h : done depth = true) (start : Nat) : Acc (Deeper done) start := by
  constructor
  rintro next ⟨hstart, rfl⟩
  have hlt : start < depth := Nat.lt_of_not_le fun hle => hstart (hmono hle h)
  exact acc_deeper hmono h (2 * start + 1)
termination_by depth - start

/-- If some depth is enough, the depth that is found is. -/
theorem done_enough (hmono : ∀ {m n}, m ≤ n → done m = true → done n = true)
    (h : done depth = true) (start : Nat) : done (enough done start) = true := by
  induction acc_deeper hmono h start with
  | intro start hacc ih =>
    rw [enough, WellFounded.partialExtrinsicFix_eq_apply_of_acc (.intro start hacc)]
    by_cases hstart : done start = true
    · rw [dif_pos hstart]
      exact hstart
    · rw [dif_neg hstart]
      exact ih (2 * start + 1) ⟨hstart, rfl⟩

end

section

variable {attempt : Nat → Except Stop α} {start : Nat} {r : Except Stop α}

theorem finished_eq_true_iff : finished r = true ↔ r ≠ .error .unfinished := by
  unfold finished
  split
  · simp
  · next hr => simpa using hr

/-- An attempt that ends is not repeated. -/
theorem deepen_of_finished (h : attempt start ≠ .error .unfinished) :
    deepen attempt start = attempt start := by
  unfold deepen
  split
  · next heq => exact absurd heq h
  · rfl

theorem deepen_of_unfinished (h : attempt start = .error .unfinished) :
    deepen attempt start
      = attempt (enough (fun depth => finished (attempt depth)) start) := by
  rw [deepen, h]

/-- Attempts that end agree. -/
theorem Deepens.agree (hmono : ∀ {m n}, m ≤ n → Deepens (attempt m) (attempt n)) {m n : Nat}
    (hm : attempt m ≠ .error .unfinished) (hn : attempt n ≠ .error .unfinished) :
    attempt m = attempt n := by
  rcases Nat.le_total m n with hle | hle
  · exact (hmono hle hm).symm
  · exact hmono hle hn

/-- Raising the depth comes to what some attempt comes to, and to nothing else. -/
theorem deepen_eq_iff (hmono : ∀ {m n}, m ≤ n → Deepens (attempt m) (attempt n))
    (hr : r ≠ .error .unfinished) : deepen attempt start = r ↔ ∃ depth, attempt depth = r := by
  by_cases hstart : attempt start = .error .unfinished
  · rw [deepen_of_unfinished hstart]
    constructor
    · intro h
      exact ⟨_, h⟩
    · rintro ⟨depth, rfl⟩
      have hdone : ∀ {m n}, m ≤ n → finished (attempt m) = true → finished (attempt n) = true := by
        intro m n hle hm
        rw [hmono hle (finished_eq_true_iff.mp hm)]
        exact hm
      have henough := done_enough hdone (finished_eq_true_iff.mpr hr) start
      exact Deepens.agree hmono (finished_eq_true_iff.mp henough) hr
  · rw [deepen_of_finished hstart]
    constructor
    · intro h
      exact ⟨start, h⟩
    · rintro ⟨depth, rfl⟩
      exact Deepens.agree hmono hstart hr

end

namespace Lambda

/-- On arguments that pass their check, an expression comes to what its root comes to at some
depth. -/
theorem interpret_eq_iff {e : Lambda} {args : List Value} {r : Except Stop Value}
    (hcheck : checkArgs e.paramTypes args = .ok ()) (hr : r ≠ .error .unfinished) :
    e.interpret args = r ↔ ∃ depth, e.arena.eval args.toArray depth [] e.root = r := by
  rw [interpret, hcheck]
  exact deepen_eq_iff (fun hle => e.arena.deepens_eval args.toArray hle [] e.root) hr

/-- `let n = 0 in` a circle: `let n = n + 1 in if n < 10 then` the circle again `else n`. -/
def counting : Lambda where
  params := []
  arena :=
    { nodes := #[⟨.const (.int 0), .int⟩, ⟨.localVar 0, .int⟩, ⟨.const (.int 1), .int⟩,
        ⟨.binary .add 1 2, .int⟩, ⟨.const (.int 10), .int⟩, ⟨.binary .lt 1 4, .bool⟩,
        ⟨.ite 5 7 1, .int⟩, ⟨.letIn 0 3 6, .int⟩, ⟨.letIn 0 0 7, .int⟩]
      table := #[] }
  root := 8

/-- The circle is left in its tenth round, which is deeper than the expression has nodes. -/
example : counting.arena.eval #[] 10 [] 8 = .error .unfinished ∧
    counting.interpret [] = .ok (.int 10) := by
  refine ⟨rfl, (interpret_eq_iff rfl ?_).mpr ⟨23, rfl⟩⟩
  nofun

end Lambda

end Stencil
