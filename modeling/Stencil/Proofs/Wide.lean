import Stencil.Interpreter
import Stencil.Proofs.Integers

/-!
# Values without bounds

A `Wide` value is a value whose integers have no bounds. The wide values whose integers
are in range, whatever lists they stand in, are those that values widen to
(`Wide.exists_widen_iff`). Operators have a second meaning on wide values, where no
integer operation overflows and a float has a whole part of any size
(`BinaryOp.exact`, `UnaryOp.exact`, `Builtin.exact`, `Wide.index`).

A computation in 64 bits `Follows` one on wide values if its result is the exact one,
and if it fails only where the exact one fails or a number is out of range. Computations
that follow can be put together (`Follows.bind`), and every operator follows its exact
meaning (`BinaryOp.follows_apply` and its siblings).
-/

namespace Stencil

/-- A value whose integers are not bounded. -/
inductive Wide where
  | int (n : Int)
  | float (x : Binary64)
  | bool (b : Bool)
  | str (s : String)
  | unit
  | list (elem : Ty) (items : List Wide)
deriving Inhabited

namespace Wide

mutual

/-- Structural equality, as of values. -/
def same : Wide → Wide → Bool
  | int a, int b => decide (a = b)
  | float a, float b => decide (a = b)
  | bool a, bool b => decide (a = b)
  | str a, str b => decide (a = b)
  | unit, unit => true
  | list s xs, list t ys => decide (s = t) && sameAll xs ys
  | _, _ => false

def sameAll : List Wide → List Wide → Bool
  | [], [] => true
  | x :: xs, y :: ys => same x y && sameAll xs ys
  | _, _ => false

end

/-- The type a value carries. -/
def ty : Wide → Ty
  | int _ => .int
  | float _ => .float
  | bool _ => .bool
  | str _ => .str
  | unit => .unit
  | list elem _ => .list elem

mutual

/-- The integers in the value, at any depth. -/
def ints : Wide → List Int
  | int n => [n]
  | list _ items => intsAll items
  | float _ | bool _ | str _ | unit => []

def intsAll : List Wide → List Int
  | [] => []
  | v :: vs => v.ints ++ intsAll vs

end

end Wide

namespace Value

mutual

/-- The value with its bounds forgotten. -/
def widen : Value → Wide
  | int n => .int n.toInt
  | float x => .float x
  | bool b => .bool b
  | str s => .str s
  | unit => .unit
  | list elem items => .list elem (widenAll items)

/-- `widen` on every item. -/
def widenAll : List Value → List Wide
  | [] => []
  | v :: vs => v.widen :: widenAll vs

end

theorem widenAll_eq_map (vs : List Value) : widenAll vs = vs.map widen := by
  induction vs with
  | nil => rfl
  | cons v vs ih => rw [widenAll, ih, List.map_cons]

/-- A list is widened item by item. -/
theorem widen_list (elem : Ty) (items : List Value) :
    (list elem items).widen = .list elem (items.map widen) := by
  rw [widen, widenAll_eq_map]

/-- Widening keeps the type. -/
theorem ty_widen (v : Value) : v.widen.ty = v.ty := by
  cases v <;> rfl

mutual

/-- All integers of a value are in range. -/
theorem inRange_of_mem_ints : (v : Value) → ∀ n ∈ v.widen.ints, InRange n
  | int a => by
    intro n hn
    rw [List.mem_singleton.mp hn]
    exact inRange_toInt a
  | list _ items => inRange_of_mem_intsAll items
  | float _ | bool _ | str _ | unit => List.forall_mem_nil _

theorem inRange_of_mem_intsAll : (vs : List Value) → ∀ n ∈ Wide.intsAll (widenAll vs), InRange n
  | [] => List.forall_mem_nil _
  | v :: vs => List.forall_mem_append.mpr ⟨inRange_of_mem_ints v, inRange_of_mem_intsAll vs⟩

end

end Value

namespace Wide

mutual

/-- A wide value whose integers are in range is that of a value. -/
theorem exists_widen_eq : (w : Wide) → (∀ n ∈ w.ints, InRange n) → ∃ v : Value, v.widen = w
  | int n, h => by
    refine ⟨.int (Int64.ofInt n), ?_⟩
    rw [Value.widen, toInt_ofInt (h n List.mem_cons_self)]
  | float x, _ => ⟨.float x, rfl⟩
  | bool b, _ => ⟨.bool b, rfl⟩
  | str s, _ => ⟨.str s, rfl⟩
  | unit, _ => ⟨.unit, rfl⟩
  | list elem items, h => by
    obtain ⟨vs, hvs⟩ := exists_widenAll_eq items h
    exact ⟨.list elem vs, by rw [Value.widen, hvs]⟩

theorem exists_widenAll_eq : (ws : List Wide) → (∀ n ∈ intsAll ws, InRange n) →
    ∃ vs : List Value, Value.widenAll vs = ws
  | [], _ => ⟨[], rfl⟩
  | w :: ws, h => by
    obtain ⟨hw, hws⟩ := List.forall_mem_append.mp h
    obtain ⟨v, hv⟩ := exists_widen_eq w hw
    obtain ⟨vs, hvs⟩ := exists_widenAll_eq ws hws
    exact ⟨v :: vs, by rw [Value.widenAll, hv, hvs]⟩

end

/-- Integers out of range are all that wide values have over values. -/
theorem exists_widen_iff (w : Wide) : (∃ v : Value, v.widen = w) ↔ ∀ n ∈ w.ints, InRange n := by
  constructor
  · rintro ⟨v, rfl⟩
    exact v.inRange_of_mem_ints
  · exact w.exists_widen_eq

end Wide

namespace Value

mutual

/-- Equality does not see whether both sides are widened. -/
theorem same_widen : (v w : Value) → v.widen.same w.widen = v.same w
  | int a, w => by
    cases w with
    | int b => simp [widen, Wide.same, same, Int64.toInt_inj]
    | _ => rfl
  | float _, w | bool _, w | str _, w | unit, w => by cases w <;> rfl
  | list _ xs, w => by
    cases w with
    | list _ ys => rw [widen, widen, Wide.same, same, sameAll_widenAll xs ys]
    | _ => rfl

theorem sameAll_widenAll : (vs ws : List Value) →
    Wide.sameAll (widenAll vs) (widenAll ws) = sameAll vs ws
  | [], ws => by cases ws <;> rfl
  | v :: vs, ws => by
    cases ws with
    | nil => rfl
    | cons w ws =>
      rw [widenAll, widenAll, Wide.sameAll, sameAll, same_widen v w, sameAll_widenAll vs ws]

end

/-- The structural comparison of values is equality. -/
theorem same_eq_decide (v w : Value) : v.same w = decide (v = w) := by
  rw [Bool.eq_iff_iff, same_eq_true_iff, decide_eq_true_iff]

end Value

/-! ### Operators -/

/-- The value of an operation in which no integer takes part. -/
def Wide.ofResult (r : Except EvalError Value) : Option Wide := r.toOption.map Value.widen

namespace BinaryOp

/-- The operator on integers without bounds. Division and remainder go toward zero, and
need a divisor. -/
def exactInt (op : BinaryOp) (a b : Int) : Option Wide :=
  match op with
  | add => some (.int (a + b))
  | sub => some (.int (a - b))
  | mul => some (.int (a * b))
  | div => if b = 0 then none else some (.int (a.tdiv b))
  | mod => if b = 0 then none else some (.int (a.tmod b))
  | _ => Wide.ofResult (op.comparison (some (compare a b)) "int")

/-- The operator on lists: they are joined if they have one element type, and compared
item by item. -/
def exactList (op : BinaryOp) (s : Ty) (xs : List Wide) (t : Ty) (ys : List Wide) : Option Wide :=
  match op with
  | add => if s = t then some (.list s (xs ++ ys)) else none
  | eq => some (.bool (Wide.same (.list s xs) (.list t ys)))
  | ne => some (.bool !(Wide.same (.list s xs) (.list t ys)))
  | _ => none

/-- The operator on wide values, if it applies. -/
def exact (op : BinaryOp) (left right : Wide) : Option Wide :=
  match left, right with
  | .int a, .int b => op.exactInt a b
  | .float a, .float b => Wide.ofResult (op.applyFloat a b)
  | .bool a, .bool b => Wide.ofResult (op.applyBool a b)
  | .str a, .str b => Wide.ofResult (op.applyStr a b)
  | .list s xs, .list t ys => op.exactList s xs t ys
  | .unit, .unit => Wide.ofResult op.applyUnit
  | _, _ => none

/-- Whether the left operand is already the result. -/
def decidesExact : BinaryOp → Wide → Bool
  | .and, .bool b => !b
  | .or, .bool b => b
  | _, _ => false

end BinaryOp

/-- The operator on a wide value, if it applies. -/
def UnaryOp.exact (op : UnaryOp) (operand : Wide) : Option Wide :=
  match op, operand with
  | neg, .int n => some (.int (-n))
  | neg, .float x => some (.float x.neg)
  | not, .bool b => some (.bool !b)
  | _, _ => none

namespace Builtin

/-- The smaller or the greater of two values of one ordered type. Against a NaN, the NaN
is taken. -/
def exactExtremum (smallest : Bool) (a b : Wide) : Option Wide :=
  match a, b with
  | .int x, .int y => some (if takesFirst smallest (compare x y) then a else b)
  | .float x, .float y =>
    match x.compare? y with
    | some order => some (if takesFirst smallest order then a else b)
    | none => some (if x.isNaN then a else b)
  | .str x, .str y => some (if takesFirst smallest (compare x y) then a else b)
  | _, _ => none

/-- The builtin on wide values; a float has a whole part of any size. -/
def exact (f : Builtin) (args : List Wide) : Option Wide :=
  match f, args with
  | abs, [.int n] => some (.int n.natAbs)
  | abs, [.float x] => some (.float x.abs)
  | min, [a, b] => exactExtremum true a b
  | max, [a, b] => exactExtremum false a b
  | len, [.list _ items] => some (.int items.length)
  | len, [.str s] => some (.int s.length)
  | toFloat, [.int n] => some (.float (.ofInt n))
  | toInt, [.float x] => x.toInt?.map .int
  | _, _ => none

end Builtin

/-- The item at a position, if the list has it. -/
def Wide.index (receiver index : Wide) : Option Wide :=
  match receiver, index with
  | .list _ items, .int i => if 0 ≤ i then items[i.toNat]? else none
  | _, _ => none

/-! ### Following -/

/-- The evaluation was given up because a number that was to be an integer does not fit
in 64 bits. -/
def Stop.outOfRange : Stop → Bool
  | error (.overflow _) | error (.floatOutOfRange _) => true
  | _ => false

/-- A computation in 64 bits follows an exact one: it has the same result, or no result
because there is none or because an integer has left the range. -/
def Follows {α β : Type} (wide : α → β) : Except Stop α → Option β → Prop
  | .ok a, o => o = some (wide a)
  | .error stop, o => stop.outOfRange = true ∨ o = none

namespace Follows

variable {α β γ δ : Type} {f : α → β} {g : γ → δ}

/-- A value follows the same value widened. -/
theorem ok (a : α) : Follows f (.ok a) (some (f a)) := rfl

/-- Without an exact value, any failure will do. -/
theorem failed (stop : Stop) : Follows f (.error stop) none := .inr rfl

/-- A number out of range excuses from any exact value. -/
theorem stopped {stop : Stop} (h : stop.outOfRange = true) (o : Option β) :
    Follows f (.error stop) o := .inl h

/-- Computations that follow can be put one after the other. -/
theorem bind {r : Except Stop α} {o : Option β} {k : α → Except Stop γ} {l : β → Option δ}
    (hr : Follows f r o) (hk : ∀ a, Follows g (k a) (l (f a))) :
    Follows g (r >>= k) (o >>= l) := by
  cases r with
  | ok a =>
    have ho : o = some (f a) := hr
    rw [ho]
    exact hk a
  | error stop =>
    rcases hr with hstop | rfl
    · exact .stopped hstop _
    · exact .failed stop

/-- A variable has a value on both sides or on neither. -/
theorem definedOr (name : String) {v : Option Value} :
    Follows Value.widen (definedOr name v) (v.map Value.widen) := by
  cases v with
  | some v => exact .ok _
  | none => exact .failed _

/-- Where no integer takes part, the exact operation is the operation itself. -/
theorem ofResult (r : Except EvalError Value) :
    Follows Value.widen (Stop.lift r) (Wide.ofResult r) := by
  cases r with
  | ok v => exact .ok _
  | error cause => exact .failed _

/-- A checked integer is the exact one, or stops because that is out of range. -/
theorem checkedInt (operation : String) (n : Int) :
    Follows Value.widen (Stop.lift (checkedInt operation n)) (some (.int n)) := by
  have h := exactOr_checkedInt operation n
  by_cases hn : InRange n
  · obtain ⟨m, hm, rfl⟩ := h.exact hn
    rw [hm]
    exact .ok _
  · rw [h.overflow hn]
    exact .stopped rfl _

/-- It is the same to choose before and after widening. -/
theorem ite (b : Bool) (v w : Value) :
    Follows Value.widen (Stop.lift (.ok (if b then v else w)))
      (some (if b then v.widen else w.widen)) := by
  cases b <;> exact .ok _

end Follows

namespace BinaryOp

/-- Integer operators follow, with the remainder giving up wherever the quotient does. -/
theorem follows_applyInt (op : BinaryOp) (a b : Int64) :
    Follows Value.widen (Stop.lift (op.applyInt a b)) (op.exactInt a.toInt b.toInt) := by
  cases op with
  | add | sub | mul => exact .checkedInt _ _
  | div =>
    simp only [applyInt, exactInt, toInt_eq_zero_iff]
    by_cases hb : b = 0
    · rw [if_pos hb, if_pos hb]
      exact .failed _
    · rw [if_neg hb, if_neg hb]
      exact .checkedInt _ _
  | mod =>
    simp only [applyInt, exactInt, toInt_eq_zero_iff]
    by_cases hb : b = 0
    · rw [if_pos hb, if_pos hb]
      exact .failed _
    · rw [if_neg hb, if_neg hb]
      -- the remainder is refused together with the quotient
      by_cases hleast : a = Int64.minValue ∧ b = -1
      · rw [if_pos hleast]
        exact .stopped rfl _
      · rw [if_neg hleast]
        exact .checkedInt _ _
  | _ => exact .ofResult _

/-- Joining and comparing lists computes no integer. -/
theorem follows_applyList (op : BinaryOp) (s : Ty) (xs : List Value) (t : Ty) (ys : List Value) :
    Follows Value.widen (Stop.lift (op.applyList s xs t ys))
      (op.exactList s (Value.widenAll xs) t (Value.widenAll ys)) := by
  have hsame : Wide.same (.list s (Value.widenAll xs)) (.list t (Value.widenAll ys))
      = decide (Value.list s xs = Value.list t ys) := by
    rw [← Value.widen, ← Value.widen, Value.same_widen, Value.same_eq_decide]
  cases op with
  | add =>
    rw [applyList, exactList]
    by_cases hst : s = t
    · rw [if_pos hst, if_pos hst]
      rw [Value.widenAll_eq_map, Value.widenAll_eq_map, ← List.map_append, ← Value.widen_list]
      exact .ok _
    · rw [if_neg hst, if_neg hst]
      exact .failed _
  | eq =>
    rw [applyList, exactList, hsame]
    exact .ok _
  | ne =>
    rw [applyList, exactList, hsame, ← decide_not]
    exact .ok _
  | _ => exact .failed _

theorem follows_apply (op : BinaryOp) (v w : Value) :
    Follows Value.widen (Stop.lift (op.apply v w)) (op.exact v.widen w.widen) := by
  cases v with
  | int a =>
    cases w with
    | int b => exact follows_applyInt op a b
    | _ => exact .failed _
  | list s xs =>
    cases w with
    | list t ys => exact follows_applyList op s xs t ys
    | _ => exact .failed _
  | float x =>
    cases w with
    | float y => exact .ofResult _
    | _ => exact .failed _
  | bool b =>
    cases w with
    | bool c => exact .ofResult _
    | _ => exact .failed _
  | str s =>
    cases w with
    | str t => exact .ofResult _
    | _ => exact .failed _
  | unit =>
    cases w with
    | unit => exact .ofResult _
    | _ => exact .failed _

/-- A wide left operand decides a logical operator if the value does. -/
theorem decidesExact_widen (op : BinaryOp) (v : Value) :
    op.decidesExact v.widen = op.decides v := by
  cases op <;> cases v <;> rfl

end BinaryOp

/-- Unary operators follow; the negation of the least integer is out of range. -/
theorem UnaryOp.follows_apply (op : UnaryOp) (v : Value) :
    Follows Value.widen (Stop.lift (op.apply v)) (op.exact v.widen) := by
  cases op with
  | neg =>
    cases v with
    | int n => exact .checkedInt _ _
    | float x => exact .ok _
    | _ => exact .failed _
  | not =>
    cases v with
    | bool b => exact .ok _
    | _ => exact .failed _

namespace Builtin

/-- An extremum is one of its operands, so it is in range. -/
theorem follows_extremum (f : Builtin) (smallest : Bool) (v w : Value) :
    Follows Value.widen (Stop.lift (extremum f smallest v w))
      (exactExtremum smallest v.widen w.widen) := by
  cases v with
  | int a =>
    cases w with
    | int b => exact .ite _ _ _
    | _ => exact .failed _
  | float x =>
    cases w with
    | float y =>
      simp only [extremum, exactExtremum, Value.widen]
      cases x.compare? y with
      | some order => exact .ite _ (.float x) (.float y)
      | none => exact .ite _ (.float x) (.float y)
    | _ => exact .failed _
  | str s =>
    cases w with
    | str t => exact .ite _ _ _
    | _ => exact .failed _
  | _ => exact .failed _

/-- The whole part of a float is given up where it does not fit. -/
theorem follows_truncated (x : Binary64) :
    Follows Value.widen (Stop.lift (truncated x)) (x.toInt?.map .int) := by
  unfold truncated
  cases x.toInt? with
  | none => exact .failed _
  | some n =>
    rw [Option.bind_some, int64?_eq]
    by_cases hn : InRange n
    · rw [if_pos hn]
      show some (Wide.int n) = some (.int (Int64.ofInt n).toInt)
      rw [toInt_ofInt hn]
    · rw [if_neg hn]
      exact .stopped rfl _

/-- The absolute value is taken without bounds and checked afterwards. -/
theorem apply_abs (n : Int64) :
    abs.apply [.int n] = Stencil.checkedInt "abs" (n.toInt.natAbs : Nat) := by
  rw [apply, if_neg (by simp [arity])]

theorem follows_apply_one (f : Builtin) (v : Value) :
    Follows Value.widen (Stop.lift (f.apply [v])) (f.exact [v.widen]) := by
  cases f with
  | abs =>
    cases v with
    | int n =>
      rw [apply_abs, Value.widen, exact]
      -- at full transparency the range check is unfolded on the natural number
      with_reducible exact .checkedInt _ _
    | float x => exact .ok _
    | _ => exact .failed _
  | len =>
    cases v with
    | str s =>
      rw [apply, if_neg (by simp [arity]), Value.widen, exact]
      with_reducible exact .checkedInt _ _
    | list elem items =>
      rw [apply, if_neg (by simp [arity]), Value.widen_list, exact, List.length_map]
      with_reducible exact .checkedInt _ _
    | _ => exact .failed _
  | toFloat =>
    cases v with
    | int n => exact .ok _
    | _ => exact .failed _
  | toInt =>
    cases v with
    | float x => exact follows_truncated x
    | _ => exact .failed _
  | min | max => exact .failed _

theorem follows_apply_two (f : Builtin) (v w : Value) :
    Follows Value.widen (Stop.lift (f.apply [v, w])) (f.exact [v.widen, w.widen]) := by
  cases f with
  | min => exact follows_extremum .min true v w
  | max => exact follows_extremum .max false v w
  | abs | len | toFloat | toInt => cases v <;> exact .failed _

theorem follows_apply (f : Builtin) (vs : List Value) :
    Follows Value.widen (Stop.lift (f.apply vs)) (f.exact (vs.map Value.widen)) := by
  match vs with
  | [] => cases f <;> exact .failed _
  | [v] => exact follows_apply_one f v
  | [v, w] => exact follows_apply_two f v w
  | v :: _ :: _ :: _ =>
    -- no builtin takes that many arguments
    cases f <;> cases v <;> exact .failed _

end Builtin

/-- An index is read as the same number on both sides. -/
theorem Value.follows_index (r i : Value) :
    Follows Value.widen (Stop.lift (r.index i)) (r.widen.index i.widen) := by
  cases r with
  | list elem items =>
    cases i with
    | int n =>
      rw [widen_list]
      simp only [index, Wide.index, widen]
      by_cases hn : 0 ≤ n.toInt
      · rw [if_pos hn, if_pos hn, List.getElem?_map]
        cases items[n.toInt.toNat]? with
        | some item => exact .ok _
        | none => exact .failed _
      · rw [if_neg hn, if_neg hn]
        exact .failed _
    | _ => exact .failed _
  | _ => exact .failed _

end Stencil
