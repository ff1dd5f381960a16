import ApiSchema.Number.Binary64

/-!
# Decimal text of numbers

A number is written with the fewest significant digits that read back as the same number. Of two
texts with that many digits the nearer one is taken, and the larger one if both are equally near.
The notation is always positional and has no fraction if the number is an integer.
-/

namespace ApiSchema

/-- The decimal number `digits * 10 ^ exponent`. -/
structure Decimal where
  /-- The significant digits, read as an integer. -/
  digits : Nat
  /-- The power of ten. -/
  exponent : Int
  deriving DecidableEq

namespace Number

/-- A fraction of natural numbers with a positive denominator. -/
structure Ratio where
  /-- The numerator. -/
  num : Nat
  /-- The denominator. -/
  den : Nat

/-- The number of decimal digits of a positive integer. -/
def digitCount (n : Nat) : Nat := (Nat.toDigits 10 n).length

/-- `r * 10 ^ k` for an exponent of either sign. -/
def Ratio.scale (r : Ratio) (k : Int) : Ratio :=
  if 0 ≤ k then ⟨r.num * Nat.pow 10 k.toNat, r.den⟩ else ⟨r.num, r.den * Nat.pow 10 (-k).toNat⟩

/-- The exponent `k` with `10 ^ (k - 1) ≤ r < 10 ^ k`, for a positive `r`. -/
def Ratio.decimalExponent (r : Ratio) : Int :=
  if r.den ≤ r.num then digitCount (r.num / r.den) else 1 - digitCount ((r.den - 1) / r.num)

/-- `significand * 2 ^ exponent` with the significand multiplied by four, so that the halfway points
to the neighbours are integers over the same denominator. -/
def Magnitude.quarters (m : Magnitude) (fourfold : Nat) : Ratio :=
  let exponent := m.exponent - 2
  if 0 ≤ exponent then ⟨fourfold * Nat.pow 2 exponent.toNat, 1⟩
  else ⟨fourfold, Nat.pow 2 (-exponent).toNat⟩

/-- Whether the integer `d` lies among the numbers that read back as `m` when all are scaled by
`10 ^ k`. The halfway points belong to the number with the even significand. -/
def Magnitude.readsBack (m : Magnitude) (k : Int) (d : Nat) : Bool :=
  let low := (m.quarters (4 * m.significand - if m.narrowBelow then 1 else 2)).scale k
  let high := (m.quarters (4 * m.significand + 2)).scale k
  if m.significand % 2 = 0 then low.num ≤ d * low.den && d * high.den ≤ high.num
  else low.num < d * low.den && d * high.den < high.num

/-- The nearest integer to `m * 10 ^ k` that reads back as `m`, if one of its two integer neighbours
does; the larger one if both are equally near. -/
def Magnitude.nearest? (m : Magnitude) (k : Int) : Option Nat :=
  let value := (m.quarters (4 * m.significand)).scale k
  let below := value.num / value.den
  match m.readsBack k below, m.readsBack k (below + 1) with
  | false, false => none
  | true, false => some below
  | false, true => some (below + 1)
  | true, true => some (if 2 * (value.num % value.den) < value.den then below else below + 1)

/-- Tries `count`, then more digits until the text reads back; seventeen always suffice. -/
def Magnitude.shortestFrom (m : Magnitude) (magnitudeExponent : Int) : Nat → Nat → Decimal
  | 0, _ => ⟨0, 0⟩
  | attempts + 1, count =>
    let exponent := magnitudeExponent - count
    match m.nearest? (-exponent) with
    | some digits => ⟨digits, exponent⟩
    | none => m.shortestFrom magnitudeExponent attempts (count + 1)

/-- The decimal with the fewest digits that reads back as `m`. -/
def Magnitude.shortest (m : Magnitude) : Decimal :=
  m.shortestFrom (m.quarters (4 * m.significand)).decimalExponent 17 1

end Number

namespace Decimal

/-- Removes up to `fuel` zeros from the end of the digits. -/
def trim : Nat → Decimal → Decimal
  | 0, d => d
  | fuel + 1, d =>
    if d.digits % 10 = 0 then trim fuel ⟨d.digits / 10, d.exponent + 1⟩ else d

/-- Positional notation: zeros fill the places between the digits and the decimal point. -/
def render (d : Decimal) : String :=
  let text := Nat.toDigits 10 d.digits
  if 0 ≤ d.exponent then
    String.ofList (text ++ List.replicate d.exponent.toNat '0')
  else
    let places := (-d.exponent).toNat
    if places < text.length then
      String.ofList (text.take (text.length - places) ++ '.' :: text.drop (text.length - places))
    else
      String.ofList ('0' :: '.' :: List.replicate (places - text.length) '0' ++ text)

end Decimal

/-- The text of a number. -/
def Number.render (n : Number) : String :=
  let sign := if n.isNegative then "-" else ""
  match n.classify with
  | .notANumber => "NaN"
  | .infinite => sign ++ "inf"
  | .zero => sign ++ "0"
  | .finite magnitude => sign ++ (magnitude.shortest.trim 17).render

end ApiSchema
