/-!
# Integers of 64 Bits in Decimal

An integer is written as an optional sign and one or more decimal digits. Digits are read from
left to right, and the first one that is no digit or that leads out of the 64 bits is the fault.
-/

namespace BundleWiring.Decimal

/-- Why a text is no 64-bit integer. -/
inductive IntegerFault where
  /-- There is nothing to read. -/
  | empty
  /-- Some character is no digit, or a sign stands alone. -/
  | invalidDigit
  /-- The number is above the greatest 64-bit integer. -/
  | tooLarge
  /-- The number is below the least 64-bit integer. -/
  | tooSmall
  deriving DecidableEq

/-- The wording of a fault. -/
def IntegerFault.message : IntegerFault → String
  | .empty => "cannot parse integer from empty string"
  | .invalidDigit => "invalid digit found in string"
  | .tooLarge => "number too large to fit in target type"
  | .tooSmall => "number too small to fit in target type"

/-- The number that `n` becomes when further digits follow it, or `overflow` as soon as it exceeds
`limit`. -/
def readDigits (limit : Nat) (overflow : IntegerFault) : Nat → List Char → Except IntegerFault Nat
  | n, [] => .ok n
  | n, c :: s =>
    if !c.isDigit then .error .invalidDigit
    else
      let m := 10 * n + (c.toNat - '0'.toNat)
      if m ≤ limit then readDigits limit overflow m s else .error overflow

/-- The greatest 64-bit integer. -/
def greatestInt64 : Nat :=
  0x7FFFFFFFFFFFFFFF

/-- The 64-bit integer in a text, without blanks around it. -/
def readInt64 (s : List Char) : Except IntegerFault Int64 :=
  match s with
  | [] => .error .empty
  | ['+'] => .error .invalidDigit
  | ['-'] => .error .invalidDigit
  | '-' :: s => (fun n => Int64.ofInt (-(n : Int))) <$> readDigits (greatestInt64 + 1) .tooSmall 0 s
  | '+' :: s => Int64.ofNat <$> readDigits greatestInt64 .tooLarge 0 s
  | s => Int64.ofNat <$> readDigits greatestInt64 .tooLarge 0 s

/-- The decimal digits of a 64-bit integer, after a minus sign if it is negative. -/
def int64Chars (v : Int64) : List Char :=
  if v.toInt < 0 then '-' :: Nat.toDigits 10 v.toInt.natAbs else Nat.toDigits 10 v.toInt.natAbs

end BundleWiring.Decimal
