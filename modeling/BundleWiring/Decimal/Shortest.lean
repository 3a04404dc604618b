import BundleWiring.Decimal.Binary64

/-!
# Writing Doubles

A double is written with the fewest decimal digits that read back as the same double; of two such
decimals the one nearer to the double is taken, and the greater one if both are equally near. The
digits are found by testing, for 1, 2, … digits, the two neighbours of the double on the grid of
decimals with that many digits: the interval of reals that round to the double holds a point of
the grid only if it holds one of these two.
-/

namespace BundleWiring.Decimal

/-- The reals that round to a double, as multiples of `1 / den`: `value` is the double itself, and
the ends belong to the interval if it is closed. -/
structure RoundingInterval where
  /-- The lower end. -/
  low : Nat
  /-- The double. -/
  value : Nat
  /-- The upper end. -/
  high : Nat
  /-- The common denominator. -/
  den : Nat
  /-- Whether the ends round to the double as well. -/
  closed : Bool

/-- The interval of the double `m * 2 ^ e`. It reaches half as far down as up when `m` is the least
significand of its size and smaller doubles lie closer together. -/
def RoundingInterval.ofSignificand (m : Nat) (e : Int) : RoundingInterval :=
  let down := if m = Binary64.fieldUnit ∧ -1074 < e then 1 else 2
  let scale := Nat.pow 2 (e - 2).toNat
  { low := (4 * m - down) * scale
    value := 4 * m * scale
    high := (4 * m + 2) * scale
    den := Nat.pow 2 (2 - e).toNat
    closed := m % 2 = 0 }

/-- A decimal number `digits * 10 ^ exponent`. -/
structure DecimalNumber where
  /-- The digits, read as a natural number. -/
  digits : Nat
  /-- The exponent of the last digit. -/
  exponent : Int

namespace RoundingInterval

variable (r : RoundingInterval)

/-- Whether the interval holds `point / (r.den * scale)`. -/
def admits (point scale : Nat) : Bool :=
  let low := r.low * scale
  let high := r.high * scale
  (low < point && point < high) || (r.closed && (point == low || point == high))

/-- The decimal of the interval whose last digit has exponent `e` and that is nearest to the
double, if there is one. -/
def nearestOnGrid? (e : Int) : Option DecimalNumber :=
  let scale := Nat.pow 10 (-e).toNat
  let step := r.den * Nat.pow 10 e.toNat
  let below := r.value * scale / step
  let above := below + 1
  let nearer := 2 * r.value * scale < (below + above) * step
  match r.admits (below * step) scale, r.admits (above * step) scale with
  | true, true => some ⟨if nearer then below else above, e⟩
  | true, false => some ⟨below, e⟩
  | false, true => some ⟨above, e⟩
  | false, false => none

/-- The exponent of the first decimal digit of the double. -/
def leadingExponent : Int :=
  let length (n : Nat) : Int := (Nat.toDigits 10 n).length
  let estimate := length r.value - length r.den
  let reaches :=
    r.den * Nat.pow 10 estimate.toNat ≤ r.value * Nat.pow 10 (-estimate).toNat
  if reaches then estimate else estimate - 1

/-- The shortest decimal of the interval; 17 digits always suffice. -/
def shortest : DecimalNumber :=
  let grids := (List.range 17).map fun (n : Nat) => r.leadingExponent - n
  (grids.findSome? r.nearestOnGrid?).getD ⟨0, 0⟩

end RoundingInterval

/-- A decimal in positional notation, with at least one digit on either side of the point;
`digits` are the digits without zeros at the end and the point stands after `point` of them. -/
def positional (digits : List Char) (point : Int) : List Char :=
  if point ≤ 0 then '0' :: '.' :: List.replicate (-point).toNat '0' ++ digits
  else
    let n := point.toNat
    if digits.length ≤ n then digits ++ List.replicate (n - digits.length) '0' ++ ['.', '0']
    else digits.take n ++ '.' :: digits.drop n

/-- A decimal with one digit before the point and an exponent; without further digits the point is
left out. -/
def scientific (digits : List Char) (point : Int) : List Char :=
  let e := point - 1
  let exponent := (if e < 0 then ['-'] else []) ++ Nat.toDigits 10 e.natAbs
  match digits with
  | [d] => d :: 'e' :: exponent
  | d :: ds => d :: '.' :: ds ++ 'e' :: exponent
  | [] => 'e' :: exponent

/-- A decimal in positional notation from `10 ^ -4` up to below `10 ^ 16`, and with an exponent
elsewhere. -/
def DecimalNumber.chars (d : DecimalNumber) : List Char :=
  let all := Nat.toDigits 10 d.digits
  let digits := (all.reverse.dropWhile (· == '0')).reverse
  let point := all.length + d.exponent
  if -4 < point && point ≤ 16 then positional digits point else scientific digits point

namespace Binary64

/-- The written form of a double. A not-a-number shows no sign. -/
def chars (x : Binary64) : List Char :=
  if x.isNaN then "NaN".toList
  else
    let (m, e) := x.significand
    let magnitude :=
      if x.isInfinite then "inf".toList
      else if m = 0 then "0.0".toList
      else (RoundingInterval.ofSignificand m e).shortest.chars
    if x.isNegative then '-' :: magnitude else magnitude

end Binary64

end BundleWiring.Decimal
