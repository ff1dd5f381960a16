/-!
# Numbers of 64 bits

A numeric literal is a binary floating-point number, kept as its 64 bits, so that two numbers are
equal exactly when their bit patterns are. A pattern splits into a sign, an exponent field of
eleven bits and a fraction field of fifty-two.
-/

namespace ApiSchema

/-- A binary floating-point number, identified by its bit pattern. -/
structure Number where
  /-- The bit pattern: sign, exponent field, fraction field. -/
  bits : UInt64
  deriving DecidableEq, Inhabited

namespace Number

/-- Whether the sign bit is set. -/
def isNegative (n : Number) : Bool := n.bits.toNat / Nat.pow 2 63 = 1

/-- The eleven bits of the exponent field. -/
def exponentField (n : Number) : Nat := n.bits.toNat / Nat.pow 2 52 % Nat.pow 2 11

/-- The fifty-two bits of the fraction field. -/
def fractionField (n : Number) : Nat := n.bits.toNat % Nat.pow 2 52

/-- A positive number `significand * 2 ^ exponent`. -/
structure Magnitude where
  /-- The integer factor, with at most fifty-three bits. -/
  significand : Nat
  /-- The power of two. -/
  exponent : Int
  /-- Whether the next smaller number is only half as far away as the next larger one. -/
  narrowBelow : Bool

/-- What a bit pattern stands for, its sign aside. -/
inductive Class where
  | notANumber
  | infinite
  | zero
  | finite (magnitude : Magnitude)

/-- Reads the exponent and fraction fields. -/
def classify (n : Number) : Class :=
  if n.exponentField = Nat.pow 2 11 - 1 then
    if n.fractionField = 0 then .infinite else .notANumber
  else if n.exponentField = 0 then
    if n.fractionField = 0 then .zero else .finite ⟨n.fractionField, -1074, false⟩
  else
    .finite ⟨Nat.pow 2 52 + n.fractionField, (n.exponentField : Int) - 1075,
      n.fractionField = 0 && n.exponentField ≠ 1⟩

end Number

end ApiSchema
