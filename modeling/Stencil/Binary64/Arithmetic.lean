import Stencil.Binary64.Basic

/-!
# Arithmetic on double-precision numbers

Each operation computes the exact result in units of `2 ^ -1074` and rounds it once, to nearest with
ties to even. A NaN operand is handed on (`Binary64.propagate`), and an operation without a
meaningful result gives `Binary64.invalid`. The remainder is exact and takes the sign of the
dividend.
-/

namespace Stencil

namespace Binary64

/-- The sign bit flipped, on a NaN too. -/
def neg (x : Binary64) : Binary64 := ⟨x.bits ^^^ 0x8000000000000000⟩

/-- The sign bit cleared, on a NaN too. -/
def abs (x : Binary64) : Binary64 := pack false x.magnitude

/-- A finite number as a signed multiple of `2 ^ -1074`. -/
def signedUnits (x : Binary64) : Int := if x.isNegative then -(x.units : Int) else x.units

/-- The finite sum; an exact zero is negative only if both operands are. -/
def addFinite (x y : Binary64) : Binary64 :=
  let sum := x.signedUnits + y.signedUnits
  if sum = 0 then pack (x.isNegative && y.isNegative) 0
  else pack (decide (sum < 0)) (nearest sum.natAbs 1)

def add (x y : Binary64) : Binary64 :=
  propagate x y <|
    if x.isInfinite then
      if y.isInfinite && x.isNegative != y.isNegative then invalid else x
    else if y.isInfinite then y
    else addFinite x y

def sub (x y : Binary64) : Binary64 :=
  propagate x y (add x y.neg)

def mul (x y : Binary64) : Binary64 :=
  propagate x y <|
    let negative := x.isNegative != y.isNegative
    if x.isInfinite || y.isInfinite then
      if x.isZero || y.isZero then invalid else pack negative infinite
    else pack negative (nearest (x.units * y.units) one)

def div (x y : Binary64) : Binary64 :=
  propagate x y <|
    let negative := x.isNegative != y.isNegative
    if x.isInfinite then
      if y.isInfinite then invalid else pack negative infinite
    else if y.isInfinite then pack negative 0
    else if y.isZero then
      if x.isZero then invalid else pack negative infinite
    else pack negative (nearest (x.units * one) y.units)

/-- What is left of `x` after whole multiples of `y` are taken out toward zero. -/
def rem (x y : Binary64) : Binary64 :=
  propagate x y <|
    if x.isInfinite || y.isZero then invalid
    else if y.isInfinite then x
    else pack x.isNegative (nearest (x.units % y.units) 1)

/-- The nearest double-precision number. -/
def ofInt (n : Int) : Binary64 :=
  pack (decide (n < 0)) (nearest (n.natAbs * one) 1)

/-- A finite number cut off toward zero; infinities and NaN have no whole part. -/
def toInt? (x : Binary64) : Option Int :=
  if x.isFinite then
    let whole : Int := (x.units / one : Nat)
    some (if x.isNegative then -whole else whole)
  else none

end Binary64

end Stencil
