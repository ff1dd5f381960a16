import ApiSchema.Json.Scan

/-!
# Numerals

A numeral is an integer, perhaps with a fraction and an exponent. Only integers of at most 64 bits
are kept exactly. Any other numeral is no more than checked: it must not be too large for a binary
floating-point number of 64 bits, where only as many of its digits are looked at as 64 bits can
hold.
-/

namespace ApiSchema.Json

/-- The largest integer of 64 bits. -/
def largest : Nat := Nat.pow 2 64 - 1

/-- The value of a decimal digit. -/
def digitValue (c : Char) : Nat := c.toNat - 48

/-- The leading digits of a text, and the rest. -/
def spanDigits (chars : List Char) : List Char × List Char :=
  (chars.takeWhile Char.isDigit, chars.dropWhile Char.isDigit)

/-- A nonnegative decimal number, `digits * 10 ^ exponent`. -/
structure Scaled where
  digits : Nat
  exponent : Int
  deriving DecidableEq

/-- Takes in the digits before the point. From the first one on that does not fit, they only count
for the exponent. -/
def Scaled.addInteger : Scaled → List Char → Scaled
  | n, [] => n
  | n, c :: cs =>
    if n.digits * 10 + digitValue c ≤ largest then
      addInteger { n with digits := n.digits * 10 + digitValue c } cs
    else
      { n with exponent := n.exponent + (c :: cs).length }

/-- Takes in the digits after the point. From the first one on that does not fit, they are left
out. -/
def Scaled.addFraction : Scaled → List Char → Scaled
  | n, [] => n
  | n, c :: cs =>
    if n.digits * 10 + digitValue c ≤ largest then
      addFraction ⟨n.digits * 10 + digitValue c, n.exponent - 1⟩ cs
    else
      n

/-- The integer that is written by digits. -/
def natOfDigits (digits : List Char) : Nat :=
  digits.foldl (fun n c => n * 10 + digitValue c) 0

/-- The nearest integer with at most 53 significant bits, of two equally near ones the one with an
even significand. -/
def roundToSignificand (n : Nat) : Nat :=
  let unit := Nat.pow 2 (n.log2 - 52)
  let quotient := n / unit
  let rest := n % unit
  if unit < 2 * rest ∨ unit = 2 * rest ∧ quotient % 2 = 1 then (quotient + 1) * unit
  else quotient * unit

/-- Whether the product of the rounded digits and the rounded power of ten is too large for a
floating-point number. -/
def Scaled.isTooLarge (n : Scaled) : Bool :=
  n.digits ≠ 0 && 0 ≤ n.exponent &&
    (308 < n.exponent ||
      (Nat.pow 2 54 - 1) * Nat.pow 2 970 ≤
        roundToSignificand n.digits * roundToSignificand (Nat.pow 10 n.exponent.toNat))

/-- What a numeral stands for. -/
inductive Numeral where
  /-- A nonnegative integer of at most 64 bits. -/
  | natural (value : Nat)
  /-- Any other number. -/
  | other
  deriving DecidableEq

/-- Accepts a number that is not too large. -/
def acceptScaled (n : Scaled) : Except Fault Numeral :=
  if n.isTooLarge then .error .malformed else .ok .other

/-- Reads an exponent after its letter. -/
def scanExponent (n : Scaled) (chars : List Char) : Except Fault (Numeral × List Char) := do
  let (negative, chars) :=
    match chars with
    | '+' :: rest => (false, rest)
    | '-' :: rest => (true, rest)
    | _ => (false, chars)
  match spanDigits chars with
  | ([], []) => throw .truncated
  | ([], _) => throw .malformed
  | (digits, rest) =>
    let exponent : Int := natOfDigits digits
    let scaled := { n with exponent := n.exponent + if negative then -exponent else exponent }
    return (← acceptScaled scaled, rest)

/-- Reads a fraction after its point. -/
def scanFraction (n : Scaled) (chars : List Char) : Except Fault (Numeral × List Char) := do
  match spanDigits chars with
  | ([], []) => throw .truncated
  | ([], _) => throw .malformed
  | (digits, rest) =>
    let scaled := n.addFraction digits
    match rest with
    | 'e' :: rest => scanExponent scaled rest
    | 'E' :: rest => scanExponent scaled rest
    | _ => return (← acceptScaled scaled, rest)

/-- Reads what may follow the integer part of a numeral. -/
def scanAfterInteger (positive : Bool) (n : Scaled) (rest : List Char) :
    Except Fault (Numeral × List Char) := do
  match rest with
  | '.' :: rest => scanFraction n rest
  | 'e' :: rest => scanExponent n rest
  | 'E' :: rest => scanExponent n rest
  | _ =>
    if positive && n.exponent = 0 then return (.natural n.digits, rest)
    else return (← acceptScaled n, rest)

/-- Reads a numeral after its sign. A leading zero is followed by no digit. -/
def scanNumeral (positive : Bool) (chars : List Char) : Except Fault (Numeral × List Char) :=
  match spanDigits chars with
  | ([], []) => .error .truncated
  | ([], _) => .error .malformed
  | ('0' :: _ :: _, _) => .error .malformed
  | (digits, rest) => scanAfterInteger positive (Scaled.addInteger ⟨0, 0⟩ digits) rest

/-! ### Passing over numerals -/

/-- Passes over digits, of which there must be one. -/
def skipDigits (chars : List Char) : Except Fault (List Char) :=
  match spanDigits chars with
  | ([], _) => .error .malformed
  | (_, rest) => .ok rest

/-- Passes over an exponent after its letter. -/
def skipExponent : List Char → Except Fault (List Char)
  | '+' :: rest => skipDigits rest
  | '-' :: rest => skipDigits rest
  | rest => skipDigits rest

/-- Passes over a fraction and an exponent, which may be missing. -/
def skipAfterInteger : List Char → Except Fault (List Char)
  | '.' :: rest => do
    match ← skipDigits rest with
    | 'e' :: rest => skipExponent rest
    | 'E' :: rest => skipExponent rest
    | rest => return rest
  | 'e' :: rest => skipExponent rest
  | 'E' :: rest => skipExponent rest
  | rest => .ok rest

/-- Passes over a numeral after its sign. Its size does not matter. -/
def skipNumeral (chars : List Char) : Except Fault (List Char) :=
  match spanDigits chars with
  | ([], _) => .error .malformed
  | ('0' :: _ :: _, _) => .error .malformed
  | (_, rest) => skipAfterInteger rest

end ApiSchema.Json
