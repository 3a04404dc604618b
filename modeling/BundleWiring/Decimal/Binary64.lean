/-!
# Binary Floating Point Numbers of 64 Bits

A double is kept as its bit pattern: a sign bit, an exponent field of 11 bits and a fraction of 52
bits. The total order puts the negative not-a-numbers first, then all numbers by size with the
negative zero before the positive one, and the positive not-a-numbers last; it tells two different
bit patterns always apart.
-/

namespace BundleWiring.Decimal

/-- A double, given by its bits. -/
structure Binary64 where
  /-- The sign bit, the exponent field and the fraction, from the highest bit down. -/
  bits : UInt64
  deriving DecidableEq

namespace Binary64

/-- The value of the sign bit. -/
def signBit : Nat :=
  0x8000000000000000

/-- The value of the lowest bit of the exponent field. -/
def fieldUnit : Nat :=
  0x10000000000000

/-- The bit pattern of infinity without its sign. -/
def infinityBits : Nat :=
  0x7FF * fieldUnit

/-- The bit pattern of the common not-a-number without its sign. -/
def nanBits : Nat :=
  infinityBits + fieldUnit / 2

/-- The double with this sign and these 63 bits below it. -/
def ofMagnitude (negative : Bool) (magnitude : Nat) : Binary64 :=
  ⟨UInt64.ofNat (if negative then signBit + magnitude else magnitude)⟩

instance : Inhabited Binary64 := ⟨⟨0⟩⟩

/-- Whether the sign bit is set. -/
def isNegative (x : Binary64) : Bool :=
  signBit ≤ x.bits.toNat

/-- The bits below the sign; for numbers, they grow with the absolute value. -/
def magnitude (x : Binary64) : Nat :=
  x.bits.toNat % signBit

/-- Whether the double is no number. -/
def isNaN (x : Binary64) : Bool :=
  infinityBits < x.magnitude

/-- Whether the double is one of the infinities. -/
def isInfinite (x : Binary64) : Bool :=
  x.magnitude == infinityBits

/-- The position of a double in the total order. -/
def rank (x : Binary64) : Nat :=
  if x.isNegative then 2 * signBit - 1 - x.bits.toNat else signBit + x.bits.toNat

/-- The total order of doubles. -/
instance : Ord Binary64 where
  compare := compareOn rank

/-- The significand `m` and the exponent `e` of a finite double: its absolute value is
`m * 2 ^ e`. -/
def significand (x : Binary64) : Nat × Int :=
  let field : Nat := x.magnitude / fieldUnit
  let fraction : Nat := x.magnitude % fieldUnit
  if field = 0 then (fraction, -1074) else (fieldUnit + fraction, (field : Int) - 1075)

end Binary64

end BundleWiring.Decimal
