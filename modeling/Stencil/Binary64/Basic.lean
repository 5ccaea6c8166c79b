/-!
# Double-precision numbers as bit patterns

`Binary64` is the 64-bit interchange format of IEEE 754: a sign bit, an 11-bit exponent field and a
52-bit fraction. Equality of the structure is equality of bit patterns, so `0.0` and `-0.0` differ
and a NaN equals itself; the numeric comparison is `Binary64.compare?`.

Every finite number is a whole multiple of the least positive one, `2 ^ -1074`. `units` is that
multiple, a natural number, and all arithmetic is done on it exactly and rounded once by `nearest`.
-/

namespace Stencil

/-- A double-precision number, given by its bit pattern. -/
structure Binary64 where
  bits : UInt64
deriving DecidableEq, Inhabited

namespace Binary64

/-- The weight of the sign bit, `2 ^ 63`. -/
def signBit : Nat := 0x8000000000000000

/-- The weight of the lowest exponent bit, `2 ^ 52`; also the least significand of a number that is
not subnormal. -/
def unitBit : Nat := 0x10000000000000

/-- The sign bit is set. -/
def isNegative (x : Binary64) : Bool := decide (signBit ≤ x.bits.toNat)

/-- The bit pattern without its sign. Among numbers that are not NaN it grows with the absolute
value. -/
def magnitude (x : Binary64) : Nat := x.bits.toNat % signBit

/-- The magnitude of the infinities; every larger one is a NaN. -/
def infinite : Nat := 2047 * unitBit

def isNaN (x : Binary64) : Bool := decide (infinite < x.magnitude)

def isInfinite (x : Binary64) : Bool := x.magnitude == infinite

def isFinite (x : Binary64) : Bool := decide (x.magnitude < infinite)

def isZero (x : Binary64) : Bool := x.magnitude == 0

/-- The number with the given sign and magnitude. -/
def pack (negative : Bool) (magnitude : Nat) : Binary64 :=
  ⟨UInt64.ofNat (if negative then signBit + magnitude else magnitude)⟩

def zero : Binary64 := ⟨0⟩

/-- The binary exponent of a finite number, counted from that of the least positive one. -/
def scale (x : Binary64) : Nat := x.magnitude / unitBit - 1

/-- The whole-number significand: `units` is `significand * 2 ^ scale`. -/
def significand (x : Binary64) : Nat :=
  if x.magnitude < unitBit then x.magnitude else unitBit + x.magnitude % unitBit

/-- The absolute value of a finite number as a multiple of `2 ^ -1074`. -/
def units (x : Binary64) : Nat := x.significand <<< x.scale

/-- How many units make one. -/
def one : Nat := 1 <<< 1074

/--
The magnitude nearest to `num / den` units, a tie going to the even significand. The significand
keeps at most 53 bits, so the last place is worth `2 ^ shift` units; a carry out of the significand
moves into the exponent field by itself.
-/
def nearest (num den : Nat) : Nat :=
  let shift := Nat.log2 (num / den) - 52
  let place := den <<< shift
  let floor := num / place
  let rest := num % place
  let rounded := if 2 * rest < place ∨ (2 * rest = place ∧ floor % 2 = 0) then floor else floor + 1
  min (shift * unitBit + rounded) infinite

/-- The NaN that an operation without a meaningful result gives. -/
def invalid : Binary64 := ⟨0xfff8000000000000⟩

/-- A NaN with its quiet bit set, sign and payload kept. -/
def quiet (x : Binary64) : Binary64 := ⟨x.bits ||| 0x0008000000000000⟩

/-- A NaN operand is the result, the left one first; otherwise the operation decides. -/
def propagate (x y : Binary64) (operation : Binary64) : Binary64 :=
  if x.isNaN then x.quiet else if y.isNaN then y.quiet else operation

/-- The order key: signed magnitude, so both zeros share one. -/
def key (x : Binary64) : Int := if x.isNegative then -(x.magnitude : Int) else x.magnitude

/-- The numeric comparison; a NaN compares with nothing. -/
def compare? (x y : Binary64) : Option Ordering :=
  if x.isNaN ∨ y.isNaN then none else some (compare x.key y.key)

end Binary64

end Stencil
