import ApiTypes.Decimal.Binary

/-!
# Shortest decimal digits

A finite binary value is written with the fewest decimal digits that lie
nearer to it than to any other value. The digits are found on the decimal
grids of one, two, and up to seventeen digits: on each grid only the two
neighbours of the value can qualify.
-/

namespace ApiTypes.Decimal

/-- The decimal number `digits * 10 ^ exponent`. -/
structure Scaled where
  /-- The digits, read as one whole number. -/
  digits : Nat
  /-- The power of ten that scales them. -/
  exponent : Int
deriving DecidableEq, Repr

/-- The value of a binary number and the ends of the interval of numbers that
round to it, as numerators over one denominator. -/
structure Interval where
  /-- Numerator of the value. -/
  value : Nat
  /-- Numerator of the lower end. -/
  low : Nat
  /-- Numerator of the upper end. -/
  high : Nat
  /-- The common denominator. -/
  denominator : Nat
  /-- Whether the ends round to the value too. -/
  closed : Bool

/-- The rounding interval of a value. Its ends lie halfway to the neighbours,
and belong to it when the mantissa is even. -/
def Binary.interval (x : Binary) : Interval :=
  let scale := Nat.pow 2 (x.exponent - 2).toNat
  { value := 4 * x.mantissa * scale
    low := (4 * x.mantissa - if x.atPowerOfTwo then 1 else 2) * scale
    high := (4 * x.mantissa + 2) * scale
    denominator := Nat.pow 2 (2 - x.exponent).toNat
    closed := x.mantissa % 2 = 0 }

/-- Whether `count * 10 ^ exponent` lies in the interval. -/
def Interval.holds (i : Interval) (count : Nat) (exponent : Int) : Bool :=
  let point := count * Nat.pow 10 exponent.toNat * i.denominator
  let scale := Nat.pow 10 (-exponent).toNat
  if i.closed then i.low * scale ≤ point && point ≤ i.high * scale
  else i.low * scale < point && point < i.high * scale

/-- The power of ten at the first digit of the value. -/
def Interval.magnitude (i : Interval) : Int :=
  if i.denominator ≤ i.value then
    ((Nat.toDigits 10 (i.value / i.denominator)).length : Int) - 1
  else
    match (List.range 400).find? fun n => i.denominator ≤ i.value * Nat.pow 10 n with
    | some n => -(n : Int)
    | none => 0

/-- The point of a grid that lies in the interval, the nearer one of two. Of
two points equally near it is the even one. -/
def Interval.onGrid? (i : Interval) (exponent : Int) : Option Scaled :=
  let numerator := i.value * Nat.pow 10 (-exponent).toNat
  let unit := i.denominator * Nat.pow 10 exponent.toNat
  let below := numerator / unit
  let rest := 2 * (numerator % unit)
  let above := below + 1
  match i.holds below exponent, i.holds above exponent with
  | true, true =>
    if rest < unit || (rest = unit && below % 2 = 0) then some ⟨below, exponent⟩
    else some ⟨above, exponent⟩
  | true, false => some ⟨below, exponent⟩
  | false, true => some ⟨above, exponent⟩
  | false, false => none

/-- The fewest digits that denote a positive value. -/
def Binary.shortest (x : Binary) : Scaled :=
  let i := x.interval
  match (List.range 17).findSome? fun (n : Nat) => i.onGrid? (i.magnitude - n) with
  | some found => found
  | none => ⟨x.mantissa, 0⟩

/-- Digits without the zeros at their end, at most as many steps as `limit`. -/
def Scaled.reduce (limit : Nat) (x : Scaled) : Scaled :=
  match limit with
  | 0 => x
  | n + 1 =>
    if x.digits ≠ 0 && x.digits % 10 = 0 then reduce n ⟨x.digits / 10, x.exponent + 1⟩ else x

/-- The text of a magnitude. Decimal exponents from -4 to 15 are written with
a point and at least one digit on either side of it, all others with an
exponent of at least two digits. -/
def Scaled.text (x : Scaled) : String :=
  let digits := Nat.toDigits 10 x.digits
  let point := (digits.length : Int) + x.exponent
  if -4 < point && point ≤ 16 then
    if point ≤ 0 then "0." ++ String.ofList (List.replicate (-point).toNat '0' ++ digits)
    else if (digits.length : Int) ≤ point then
      String.ofList (digits ++ List.replicate (point - digits.length).toNat '0') ++ ".0"
    else
      String.ofList (digits.take point.toNat) ++ "." ++ String.ofList (digits.drop point.toNat)
  else
    let fraction := match digits with
      | first :: [] => [first]
      | first :: rest => first :: '.' :: rest
      | [] => []
    let power := Nat.toDigits 10 (point - 1).natAbs
    String.ofList fraction ++ (if point - 1 < 0 then "e-" else "e+") ++
      String.ofList (if power.length < 2 then '0' :: power else power)

/-- The text of a reading, with the given words for values that are not finite. -/
def Reading.text (reading : Reading) (infinity notNumber : String) : String :=
  match reading with
  | .finite negative magnitude =>
    let unsigned :=
      if magnitude.mantissa = 0 then "0.0" else (magnitude.shortest.reduce 17).text
    if negative then "-" ++ unsigned else unsigned
  | .infinite negative => if negative then "-" ++ infinity else infinity
  | .notNumber => notNumber

end ApiTypes.Decimal
