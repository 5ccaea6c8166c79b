import Stencil.Binary64.Arithmetic
import Stencil.Decimal.Shortest

/-!
# Written form of double-precision numbers

The fewest digits that read back. Numbers of at least `1e-4` and below `1e16` are written
positionally with at least one decimal; all others as one digit, the remaining digits after a point
if there are any, and a power of ten.
-/

namespace Stencil

namespace Binary64

/-- The interval of reals that round to a finite positive number. Below a power of two the
neighbour is half as far away as above it. -/
def rounding (x : Binary64) : Decimal.Interval where
  low := (4 * x.significand - if x.significand = unitBit ∧ 0 < x.scale then 1 else 2) <<< x.scale
  value := (4 * x.significand) <<< x.scale
  high := (4 * x.significand + 2) <<< x.scale
  den := 4 * one
  closed := x.significand % 2 = 0

/-- The powers of ten of the leading digit that are written positionally. -/
def positionalFrom : Int := -4

/-- See `positionalFrom`. -/
def positionalBelow : Int := 16

def zeros (n : Nat) : String := String.ofList (List.replicate n '0')

/-- The digits with a point after the first `whole` of them, padded so that both sides have a digit.
-/
def positional (digits : List Char) (whole : Int) : String :=
  if whole ≤ 0 then "0." ++ zeros (-whole).toNat ++ String.ofList digits
  else
    let n := whole.toNat
    if digits.length ≤ n then String.ofList digits ++ zeros (n - digits.length) ++ ".0"
    else String.ofList (digits.take n) ++ "." ++ String.ofList (digits.drop n)

/-- One digit, the others after a point if there are any, and the power of ten of the first. -/
def scientific (digits : List Char) (top : Int) : String :=
  let mantissa :=
    match digits with
    | first :: second :: rest => String.ofList [first] ++ "." ++ String.ofList (second :: rest)
    | _ => String.ofList digits
  mantissa ++ "e" ++ toString top

/-- The written form of the absolute value. -/
def textOfMagnitude (x : Binary64) : String :=
  if x.isInfinite then "inf"
  else if x.isZero then "0.0"
  else
    let (d, e) := Decimal.shortest x.rounding
    let digits := Nat.toDigits 10 d
    let top := e + digits.length - 1
    if positionalFrom ≤ top ∧ top < positionalBelow then positional digits (top + 1)
    else scientific digits top

def text (x : Binary64) : String :=
  if x.isNaN then "NaN"
  else if x.isNegative then "-" ++ x.textOfMagnitude
  else x.textOfMagnitude

end Binary64

end Stencil
