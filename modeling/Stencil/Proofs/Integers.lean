import Stencil.Operator.Apply

/-!
# Integer operations

An integer operation computes its exact result and fails if that does not fit in 64
bits (`ExactOr`). Division comes in two halves, the quotient and the remainder, which
fail together (`DivisionLaw`). The quotient of integers in range is in range with one
exception, the least integer over `-1` (`inRange_tdiv`). The remainder there would be
zero, but it is refused all the same.
-/

namespace Stencil

/-- The integer lies in `[-2 ^ 63, 2 ^ 63)`. -/
def InRange (n : Int) : Prop := -9223372036854775808 ≤ n ∧ n < 9223372036854775808

instance : DecidablePred InRange := fun n =>
  inferInstanceAs (Decidable (-9223372036854775808 ≤ n ∧ n < 9223372036854775808))

theorem inRange_toInt (a : Int64) : InRange a.toInt := by
  have hlow := a.le_toInt
  have hhigh := a.toInt_lt
  unfold InRange
  omega

theorem toInt_ofInt {n : Int} (h : InRange n) : (Int64.ofInt n).toInt = n := by
  obtain ⟨hlow, hhigh⟩ := h
  exact Int64.toInt_ofInt_of_le (by omega) (by omega)

theorem int64?_eq (n : Int) : int64? n = if InRange n then some (Int64.ofInt n) else none := rfl

/-- The result is the integer if that is in range, and else an overflow of the
operation. -/
structure ExactOr (operation : String) (n : Int) (r : Except EvalError Value) : Prop where
  exact : InRange n → ∃ m : Int64, r = .ok (.int m) ∧ m.toInt = n
  overflow : ¬ InRange n → r = .error (.overflow operation)

theorem exactOr_checkedInt (operation : String) (n : Int) :
    ExactOr operation n (checkedInt operation n) := by
  constructor
  · intro h
    refine ⟨Int64.ofInt n, ?_, toInt_ofInt h⟩
    rw [checkedInt, int64?_eq, if_pos h]
  · intro h
    rw [checkedInt, int64?_eq, if_neg h]

/-! ### Division -/

/-- Dividing by anything but `1` and `-1` at least halves an integer. -/
theorem inRange_tdiv {a b : Int} (ha : InRange a) (hb : b ≠ 0)
    (h : ¬ (a = -9223372036854775808 ∧ b = -1)) : InRange (a.tdiv b) := by
  have habs := Int.natAbs_tdiv a b
  unfold InRange at ha ⊢
  by_cases hone : b = 1
  · rw [hone, Int.tdiv_one]
    exact ha
  · by_cases hminus : b = -1
    · rw [hminus, Int.tdiv_neg, Int.tdiv_one]
      omega
    · have hhalf : a.natAbs.div b.natAbs ≤ a.natAbs / 2 :=
        Nat.div_le_div_left (by omega) (by omega)
      omega

theorem natAbs_tmod_lt (a : Int) {b : Int} (hb : b ≠ 0) : (a.tmod b).natAbs < b.natAbs := by
  rw [Int.natAbs_tmod]
  exact Nat.mod_lt _ (by omega)

theorem inRange_tmod {a b : Int} (hb : InRange b) (hzero : b ≠ 0) : InRange (a.tmod b) := by
  have hlt := natAbs_tmod_lt a hzero
  unfold InRange at hb ⊢
  omega

/-- A remainder is zero or has the sign of the dividend. -/
theorem sign_tmod (a b : Int) : a.tmod b = 0 ∨ (a.tmod b).sign = a.sign := by
  rcases Int.lt_trichotomy a 0 with ha | rfl | ha
  · have hrem := Int.tmod_nonneg b (Int.le_of_lt (Int.neg_pos_of_neg ha))
    rw [Int.neg_tmod] at hrem
    by_cases hzero : a.tmod b = 0
    · exact .inl hzero
    · right
      rw [Int.sign_eq_neg_one_of_neg ha, Int.sign_eq_neg_one_of_neg (by omega)]
  · exact .inl (Int.zero_tmod b)
  · have hrem := Int.tmod_nonneg b (Int.le_of_lt ha)
    by_cases hzero : a.tmod b = 0
    · exact .inl hzero
    · right
      rw [Int.sign_eq_one_of_pos ha, Int.sign_eq_one_of_pos (by omega)]

/-- Quotient and remainder fail together, and if they do not they are those of division
toward zero. -/
structure DivisionLaw (a b : Int64) : Prop where
  byZero : b = 0 →
    BinaryOp.div.apply (.int a) (.int b) = .error .divisionByZero ∧
      BinaryOp.mod.apply (.int a) (.int b) = .error .moduloByZero
  overflow : a = Int64.minValue → b = -1 →
    BinaryOp.div.apply (.int a) (.int b) = .error (.overflow "division") ∧
      BinaryOp.mod.apply (.int a) (.int b) = .error (.overflow "remainder")
  divides : b ≠ 0 → ¬ (a = Int64.minValue ∧ b = -1) → ∃ q r : Int64,
    BinaryOp.div.apply (.int a) (.int b) = .ok (.int q) ∧
      BinaryOp.mod.apply (.int a) (.int b) = .ok (.int r) ∧
      a.toInt = q.toInt * b.toInt + r.toInt ∧ r.toInt.natAbs < b.toInt.natAbs ∧
      (r.toInt = 0 ∨ r.toInt.sign = a.toInt.sign)

theorem toInt_eq_zero_iff {b : Int64} : b.toInt = 0 ↔ b = 0 := by
  rw [← Int64.toInt_zero, Int64.toInt_inj]

theorem divisionLaw (a b : Int64) : DivisionLaw a b where
  byZero := by
    rintro rfl
    exact ⟨rfl, rfl⟩
  overflow := by
    rintro rfl rfl
    exact ⟨rfl, rfl⟩
  divides := by
    intro hb hexcept
    have hzero : b.toInt ≠ 0 := fun h => hb (toInt_eq_zero_iff.mp h)
    have hexcept' : ¬ (a.toInt = -9223372036854775808 ∧ b.toInt = -1) := by
      rintro ⟨ha, hb⟩
      exact hexcept ⟨Int64.toInt_inj.mp ha, Int64.toInt_inj.mp hb⟩
    obtain ⟨q, hq, hqn⟩ := (exactOr_checkedInt "division" (a.toInt.tdiv b.toInt)).exact
      (inRange_tdiv (inRange_toInt a) hzero hexcept')
    obtain ⟨r, hr, hrn⟩ := (exactOr_checkedInt "remainder" (a.toInt.tmod b.toInt)).exact
      (inRange_tmod (inRange_toInt b) hzero)
    refine ⟨q, r, ?_, ?_, ?_, ?_, ?_⟩
    · show BinaryOp.div.applyInt a b = _
      rw [BinaryOp.applyInt, if_neg hb, hq]
    · show BinaryOp.mod.applyInt a b = _
      rw [BinaryOp.applyInt, if_neg hb, if_neg hexcept, hr]
    · rw [hqn, hrn, Int.tdiv_mul_add_tmod]
    · rw [hrn]
      exact natAbs_tmod_lt _ hzero
    · rw [hrn]
      exact sign_tmod _ _

end Stencil
