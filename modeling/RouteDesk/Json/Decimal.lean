/-! Decimal forms of binary floating-point numbers: the fewest digits that read back as the
same number, and of those the nearest; and numbers read from a significand and a power of
ten.
-/

namespace RouteDesk

/-- A power of two. -/
def twoTo (exponent : Nat) : Nat :=
  Nat.pow 2 exponent

/-- A power of ten. -/
def tenTo (exponent : Nat) : Nat :=
  Nat.pow 10 exponent

/-- A finite number `significand * 2 ^ power` and whether the number below it is half as far
away as the number above it.
-/
structure Binary where
  significand : Nat
  power : Int
  narrowBelow : Bool

/-- The magnitude that the bits of a finite number stand for. -/
def Binary.ofBits (bits : UInt64) : Binary :=
  let exponent : Nat := (bits.toNat / twoTo 52) % twoTo 11
  let fraction : Nat := bits.toNat % twoTo 52
  if exponent = 0 then ⟨fraction, -1074, false⟩
  else ⟨twoTo 52 + fraction, (exponent : Int) - 1075, fraction == 0 && 1 < exponent⟩

/-- The number `digits * 10 ^ exponent`. -/
structure Decimal where
  digits : Nat
  exponent : Int
deriving DecidableEq

namespace Decimal

/-- How `digits * 10 ^ exponent` compares with `count * 2 ^ power`. -/
def compareScaled (decimal : Decimal) (count : Nat) (power : Int) : Ordering :=
  compare (decimal.digits * tenTo decimal.exponent.toNat * twoTo (-power).toNat)
    (count * twoTo power.toNat * tenTo (-decimal.exponent).toNat)

/-- Whether the decimal lies among the numbers that are rounded to this binary number. -/
def readsBack (decimal : Decimal) (number : Binary) : Bool :=
  let low := 4 * number.significand - (if number.narrowBelow then 1 else 2)
  let high := 4 * number.significand + 2
  let closed := number.significand % 2 == 0
  let below := decimal.compareScaled low (number.power - 2)
  let above := decimal.compareScaled high (number.power - 2)
  (below == .gt || (closed && below == .eq)) && (above == .lt || (closed && above == .eq))

/-- The largest multiple of `10 ^ exponent` up to the binary number. -/
def floorAt (number : Binary) (exponent : Int) : Decimal :=
  let above := number.significand * twoTo number.power.toNat * tenTo (-exponent).toNat
  let below := twoTo (-number.power).toNat * tenTo exponent.toNat
  ⟨above / below, exponent⟩

/-- The multiple of `10 ^ exponent` that reads back; the nearer one if both neighbours do,
and the even one if they are equally near.
-/
def nearestAt (number : Binary) (exponent : Int) : Option Decimal :=
  let lower := floorAt number exponent
  let upper : Decimal := ⟨lower.digits + 1, exponent⟩
  let middle : Decimal := ⟨2 * lower.digits + 1, exponent⟩
  match lower.readsBack number, upper.readsBack number with
  | true, true =>
    match middle.compareScaled (2 * number.significand) number.power with
    | .gt => some lower
    | .lt => some upper
    | .eq => some (if lower.digits % 2 == 0 then lower else upper)
  | true, false => some lower
  | false, true => some upper
  | false, false => none

/-- The exponent of ten just above a positive binary number. -/
def scale (number : Binary) : Int :=
  let whole := number.significand * twoTo number.power.toNat / twoTo (-number.power).toNat
  if whole ≠ 0 then (Nat.toDigits 10 whole).length
  else
    let places := (List.range 400).find? fun places =>
      twoTo (-number.power).toNat ≤ number.significand * tenTo places
    1 - (places.getD 400 : Nat)

/-- The decimal without zeros at its end. -/
def stripped (decimal : Decimal) : Decimal :=
  go 20 decimal
where
  /-- Drops no more than `limit` zeros. -/
  go : Nat → Decimal → Decimal
    | 0, decimal => decimal
    | limit + 1, decimal =>
      if decimal.digits ≠ 0 ∧ decimal.digits % 10 = 0
      then go limit ⟨decimal.digits / 10, decimal.exponent + 1⟩
      else decimal

/-- The decimal with the fewest digits that reads back as a positive number. -/
def shortest (number : Binary) : Decimal :=
  let top := scale number
  let found := (List.range 17).findSome? fun (more : Nat) => nearestAt number (top - 1 - more)
  (found.getD (floorAt number (min number.power 0))).stripped

/-- The text of a decimal as JSON has it: positional from five places after the point to
sixteen before it, otherwise with a signed exponent.
-/
def text (decimal : Decimal) : String :=
  let digits := Nat.toDigits 10 decimal.digits
  let lead := decimal.exponent + digits.length - 1
  let zeros (count : Nat) := List.replicate count '0'
  if lead < -5 ∨ 16 ≤ lead then
    let fraction := if digits.length ≤ 1 then [] else '.' :: digits.drop 1
    let sign := if lead < 0 then '-' else '+'
    String.ofList (digits.take 1 ++ fraction ++ 'e' :: sign :: Nat.toDigits 10 lead.natAbs)
  else if 0 ≤ decimal.exponent then
    String.ofList (digits ++ zeros decimal.exponent.toNat ++ ['.', '0'])
  else if 0 ≤ lead then
    String.ofList (digits.take (lead.toNat + 1) ++ '.' :: digits.drop (lead.toNat + 1))
  else
    String.ofList (['0', '.'] ++ zeros (-lead - 1).toNat ++ digits)

/-- The text of a finite floating-point number. -/
def ofFloat (value : Float) : String :=
  let bits := value.toBits
  let sign := if bits < 0x8000000000000000 then "" else "-"
  let number := Binary.ofBits bits
  let magnitude := if number.significand = 0 then "0.0" else (shortest number).text
  sign ++ magnitude

/-- The product of a significand below `2 ^ 64` and a power of ten, by one multiplication or
division; powers beyond the range of a factor are divided out step by step. No answer for a
product that is out of range.
-/
def scaled (significand : Nat) (exponent : Int) : Option Float :=
  go (exponent.natAbs / 308 + 1) (significand.toUInt64.toFloat) exponent
where
  /-- Divides by `10 ^ 308` no more than `limit` times. -/
  go : Nat → Float → Int → Option Float
    | 0, value, _ => some value
    | limit + 1, value, exponent =>
      if exponent.natAbs ≤ 308 then
        let factor := Float.ofScientific 1 false exponent.natAbs
        if 0 ≤ exponent then
          let product := value * factor
          if product.isInf then none else some product
        else some (value / factor)
      else if value == 0.0 then some value
      else if 0 ≤ exponent then none
      else go limit (value / 1e308) (exponent + 308)

end Decimal

end RouteDesk
