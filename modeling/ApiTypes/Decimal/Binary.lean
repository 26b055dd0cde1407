/-!
# Binary floating-point values

The sixty-four bits of a floating-point number denote a sign and a whole
number scaled by a power of two, an infinity, or no number. This module reads
the bits, so that the other modules can calculate with whole numbers only.
-/

namespace ApiTypes.Decimal

/-- The magnitude `mantissa * 2 ^ exponent` of a finite value. -/
structure Binary where
  /-- The whole number that is scaled. -/
  mantissa : Nat
  /-- The power of two that scales it. -/
  exponent : Int
  /-- Whether the next smaller value is only half as far away as the next larger one. -/
  atPowerOfTwo : Bool
deriving DecidableEq, Repr

/-- What the bits of a floating-point number denote. -/
inductive Reading where
  /-- A finite value with its sign. -/
  | finite (negative : Bool) (magnitude : Binary)
  /-- An infinity with its sign. -/
  | infinite (negative : Bool)
  /-- No number. -/
  | notNumber
deriving DecidableEq, Repr

/-- Reads sixty-four bits: a sign bit, eleven exponent bits and fifty-two
fraction bits. -/
def Reading.ofBits (bits : Nat) : Reading :=
  let negative : Bool := bits / Nat.pow 2 63 % 2 == 1
  let exponent : Nat := bits / Nat.pow 2 52 % Nat.pow 2 11
  let fraction : Nat := bits % Nat.pow 2 52
  if exponent = 2047 then
    if fraction = 0 then .infinite negative else .notNumber
  else if exponent = 0 then .finite negative ⟨fraction, -1074, false⟩
  else .finite negative
    ⟨Nat.pow 2 52 + fraction, (exponent : Int) - 1075, fraction = 0 && exponent ≠ 1⟩

/-- Reads a floating-point number. -/
def Reading.ofFloat (x : Float) : Reading := .ofBits x.toBits.toNat

/-- Whether a reading is exactly the given whole number. -/
def Reading.isInt (reading : Reading) (n : Int) : Bool :=
  match reading with
  | .finite negative magnitude =>
    let signed : Int := if negative then -magnitude.mantissa else magnitude.mantissa
    if 0 ≤ magnitude.exponent then signed * Nat.pow 2 magnitude.exponent.toNat == n
    else signed == n * Nat.pow 2 (-magnitude.exponent).toNat
  | _ => false

end ApiTypes.Decimal
