/-!
# Shortest decimal that reads back

A positive number is given by three fractions over one denominator: the number itself and the two
ends of the interval of reals that round to it. `Decimal.shortest` finds the decimal with the fewest
digits inside that interval. A grid of `n` digits holds one in the interval only if one of the
number's two neighbours on the grid does, so two candidates per digit count are enough; of two that
fit the nearer one is taken, and an exact tie goes up.
-/

namespace Stencil

namespace Decimal

/-- The interval of reals that round to a number, over a common denominator. -/
structure Interval where
  low : Nat
  value : Nat
  high : Nat
  den : Nat
  /-- The ends belong to the interval. -/
  closed : Bool

namespace Interval

/-- Whether `num / (den * scale)` lies in the interval, with `num` already over the interval's
denominator. -/
def holds (i : Interval) (num scale : Nat) : Bool :=
  if i.closed then decide (i.low * scale ≤ num ∧ num ≤ i.high * scale)
  else decide (i.low * scale < num ∧ num < i.high * scale)

/-- A power of ten. -/
def powTen (k : Nat) : Nat := Nat.pow 10 k

/-- The power of ten of the leading digit of the number. -/
def exponent (i : Interval) : Int :=
  if i.den ≤ i.value then
    (((List.range 400).takeWhile fun k => decide (i.den * powTen (k + 1) ≤ i.value)).length : Nat)
  else
    -((((List.range 400).takeWhile fun k => decide (i.value * powTen k < i.den)).length : Nat)
      : Int)

/-- The point of the grid `10 ^ e` that lies in the interval, the nearer one if both neighbours do.
-/
def onGrid? (i : Interval) (e : Int) : Option Nat :=
  let up := powTen e.toNat
  let down := powTen (-e).toNat
  let place := i.den * up
  let num := i.value * down
  let below := num / place
  let fits := fun d => i.holds (d * place) down
  match fits below, fits (below + 1) with
  | true, true => some (if 2 * (num % place) < place then below else below + 1)
  | true, false => some below
  | false, true => some (below + 1)
  | false, false => none

end Interval

/-- Trailing zeros moved into the exponent. -/
def trim : (fuel : Nat) → Nat × Int → Nat × Int
  | 0, p => p
  | fuel + 1, (d, e) => if d ≠ 0 ∧ d % 10 = 0 then trim fuel (d / 10, e + 1) else (d, e)

/-- The shortest decimal `d * 10 ^ e` in the interval, `d` without trailing zeros. Seventeen digits
tell any two double-precision numbers apart, so the search always ends with a hit. -/
def shortest (i : Interval) : Nat × Int :=
  let top := i.exponent
  let found := (List.range 17).findSome? fun (n : Nat) =>
    (i.onGrid? (top - n)).map fun d => (d, top - n)
  trim 20 (found.getD (0, 0))

end Decimal

end Stencil
