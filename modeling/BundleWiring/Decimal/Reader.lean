import BundleWiring.Decimal.Binary64

/-!
# Reading Doubles

A double is written as an optional sign, digits with an optional point and an optional exponent,
or as `inf`, `infinity` or `nan` in any case. The written number is rounded to the nearest double;
halfway between two doubles the one with the even significand is taken. What is too large becomes
infinite and what is too small becomes zero.
-/

namespace BundleWiring.Decimal

/-- Why a text is no double. -/
inductive DoubleFault where
  /-- There is nothing to read. -/
  | empty
  /-- The text has not the form of a double. -/
  | malformed
  deriving DecidableEq

/-- The wording of a fault. -/
def DoubleFault.message : DoubleFault → String
  | .empty => "cannot parse float from empty string"
  | .malformed => "invalid float literal"

/-- A quotient rounded to the nearest natural number, halves to the even one. -/
def roundHalfEven (num den : Nat) : Nat :=
  let q := num / den
  let r := num % den
  if 2 * r < den ∨ 2 * r = den ∧ q % 2 = 0 then q else q + 1

/-- The quotient `num / den` divided by `2 ^ e`, as another quotient. -/
def scaleDown (num den : Nat) (e : Int) : Nat × Nat :=
  (num * Nat.pow 2 (-e).toNat, den * Nat.pow 2 e.toNat)

/-- The exponent of the last bit that a double close to `num / den` has room for. -/
def lastBitExponent (num den : Nat) : Int :=
  let estimate : Int := num.log2 - den.log2
  let (n, d) := scaleDown num den estimate
  max (-1074) ((if n < d then estimate - 1 else estimate) - 52)

namespace Binary64

/-- The magnitude of the double nearest to `num / den`. A significand that rounds up to the next
power of two carries into the exponent field by itself. -/
def nearestMagnitude (num den : Nat) : Nat :=
  if num = 0 then 0
  else
    let e := lastBitExponent num den
    let (n, d) := scaleDown num den e
    min infinityBits ((e + 1074).toNat * fieldUnit + roundHalfEven n d)

/-- The magnitude of the double nearest to `m * 10 ^ e`. Exponents far outside the range of
doubles are settled by the number of digits alone. -/
def nearestDecimal (m : Nat) (e : Int) : Nat :=
  let top := (Nat.toDigits 10 m).length + e
  if m = 0 ∨ top < -400 then 0
  else if 400 < top then infinityBits
  else nearestMagnitude (m * Nat.pow 10 e.toNat) (Nat.pow 10 (-e).toNat)

/-- The exponent after a number: nothing for zero, or the letter `e`, an optional sign and
digits. -/
def readExponent? (s : List Char) : Option Int :=
  let digits? (s : List Char) : Option Int :=
    if s.isEmpty || !s.all Char.isDigit then none else some (Nat.ofDigitChars 10 s 0)
  match s with
  | [] => some 0
  | c :: s =>
    if c = 'e' ∨ c = 'E' then
      match s with
      | '-' :: s => (-·) <$> digits? s
      | '+' :: s => digits? s
      | s => digits? s
    else none

/-- The magnitude of a number without a sign. -/
def readNumber? (s : List Char) : Option Nat :=
  let (whole, s) := s.span Char.isDigit
  let (fraction, s) := match s with
    | '.' :: s => s.span Char.isDigit
    | s => ([], s)
  if whole.isEmpty && fraction.isEmpty then none
  else
    (readExponent? s).map fun e =>
      nearestDecimal (Nat.ofDigitChars 10 (whole ++ fraction) 0) (e - fraction.length)

/-- The magnitude of a double without a sign: a named one or a number. -/
def readMagnitude? (s : List Char) : Option Nat :=
  let name := s.map Char.toLower
  if name = "inf".toList ∨ name = "infinity".toList then some infinityBits
  else if name = "nan".toList then some nanBits
  else readNumber? s

/-- The double in a text, without blanks around it. -/
def read (s : List Char) : Except DoubleFault Binary64 :=
  let signed (negative : Bool) (s : List Char) : Except DoubleFault Binary64 :=
    match readMagnitude? s with
    | some m => .ok (ofMagnitude negative m)
    | none => .error .malformed
  match s with
  | [] => .error .empty
  | '-' :: s => signed true s
  | '+' :: s => signed false s
  | s => signed false s

end Binary64

end BundleWiring.Decimal
