/-!
Doubles in decimal.

* `Dyadic` is a positive double as `mantissa · 2^exponent` with the numbers that are read as it;
  `Dyadic.shortest` is the decimal with the fewest digits among those, and of the decimals with that
  many digits the nearest to the double, a `Tie` being settled one way or the other;
* `plainText` writes all digits in place and a whole number without a point; `exponentText` writes a
  point always and changes to an exponent from `10^16` on and below `10^-5`;
* `ofDecimal` is the double nearest to a decimal.
-/
namespace CodeIndex

/-- The number `digits · 10^exponent`. -/
structure Decimal where
  digits : Nat
  exponent : Int
deriving Repr, DecidableEq

namespace Decimal

/-- Which of two whole numbers is taken when both are equally near. -/
inductive Tie where
  /-- The even one. -/
  | even
  /-- The greater one. -/
  | up
deriving Repr, DecidableEq

/-- The whole number nearest to `num / den`. -/
def nearest (tie : Tie) (num den : Nat) : Nat :=
  let n := num / den
  let rest := num - n * den
  let above :=
    match tie with
    | .even => den < 2 * rest || (den = 2 * rest && n % 2 = 1)
    | .up => den ≤ 2 * rest
  if above then n + 1 else n

/-- How many digits a number is written with. -/
def digitCount (n : Nat) : Nat := (Nat.toDigits 10 n).length

/-- The same number with no zero at the end of its digits; `fuel` bounds how many are taken off. -/
def stripZeros (fuel : Nat) (d : Decimal) : Decimal :=
  match fuel with
  | 0 => d
  | fuel + 1 =>
    if d.digits % 10 = 0 && d.digits ≠ 0 then stripZeros fuel ⟨d.digits / 10, d.exponent + 1⟩
    else d

/-- A positive double: `mantissa · 2^exponent`. At the bottom of a binade the next double below is
half as far as the next one above. -/
structure Dyadic where
  mantissa : Nat
  exponent : Int
  bottom : Bool
deriving Repr, DecidableEq

/-- The double with the given bits, its sign left out. -/
def Dyadic.ofBits (bits : Nat) : Dyadic :=
  let field : Nat := bits / Nat.pow 2 52 % Nat.pow 2 11
  let fraction : Nat := bits % Nat.pow 2 52
  if field = 0 then ⟨fraction, -1074, false⟩
  else ⟨Nat.pow 2 52 + fraction, (field : Int) - 1075, fraction = 0 && 1 < field⟩

/-- A double and the ends of the interval of the numbers read as it, over one denominator. -/
structure Rounding where
  value : Nat
  low : Nat
  high : Nat
  den : Nat
  /-- Whether the ends belong to the interval. -/
  closed : Bool
deriving Repr, DecidableEq

/-- The interval of a double: half a step to either side, a quarter step below at the bottom of a
binade, with its ends if the mantissa is even. -/
def Dyadic.rounding (d : Dyadic) : Rounding :=
  let scale := Nat.pow 2 d.exponent.toNat
  let below := if d.bottom then 1 else 2
  ⟨4 * d.mantissa * scale, (4 * d.mantissa - below) * scale, (4 * d.mantissa + 2) * scale,
    4 * Nat.pow 2 (-d.exponent).toNat, d.mantissa % 2 = 0⟩

/-- The number of places before the decimal point: the least `k` with the value below `10^k`. -/
def Rounding.places (r : Rounding) : Int :=
  (digitCount (r.value * Nat.pow 10 400 / r.den) : Int) - 400

/-- The multiple of `10^step` next to the value that is read as it, the nearest one if both are. -/
def Rounding.onGrid (tie : Tie) (r : Rounding) (step : Int) : Option Decimal :=
  let up := Nat.pow 10 (-step).toNat
  let den := r.den * Nat.pow 10 step.toNat
  let value := r.value * up
  let inside (n : Nat) : Bool :=
    if r.closed then r.low * up ≤ n * den && n * den ≤ r.high * up
    else r.low * up < n * den && n * den < r.high * up
  let n := value / den
  match inside n, inside (n + 1) with
  | true, true => some ⟨nearest tie value den, step⟩
  | true, false => some ⟨n, step⟩
  | false, true => some ⟨n + 1, step⟩
  | false, false => none

/-- The first hit on the grids with `count`, `count + 1`, … digits. -/
def Rounding.firstHit (tie : Tie) (r : Rounding) (places : Int) (count : Nat) : Nat → Decimal
  | 0 => ⟨r.value / r.den, 0⟩
  | fuel + 1 =>
    match r.onGrid tie (places - count) with
    | some d => d
    | none => r.firstHit tie places (count + 1) fuel

/-- The shortest decimal that is read as the double. -/
def Dyadic.shortest (tie : Tie) (d : Dyadic) : Decimal :=
  let r := d.rounding
  stripZeros 400 (r.firstHit tie r.places 1 18)

/-! ## Written forms -/

/-- `n` zeros. -/
def zeros (n : Nat) : String := String.ofList (List.replicate n '0')

/-- The digits of a decimal in place, without a point if it is whole. -/
def positional (d : Decimal) : String :=
  let text := toString d.digits
  if 0 ≤ d.exponent then text ++ zeros d.exponent.toNat
  else
    let count := (-d.exponent).toNat
    if count < text.length then
      String.ofList (text.toList.take (text.length - count)) ++ "." ++
        String.ofList (text.toList.drop (text.length - count))
    else "0." ++ zeros (count - text.length) ++ text

/-- A decimal with a point, in place between `10^-5` and `10^16`, else with an exponent. -/
def scientific (d : Decimal) : String :=
  let text := toString d.digits
  let point : Int := text.length + d.exponent
  if 0 ≤ d.exponent && point ≤ 16 then d.positional ++ ".0"
  else if -5 < point && point ≤ 16 then d.positional
  else
    let mantissa :=
      match text.toList with
      | first :: second :: rest => String.ofList (first :: '.' :: second :: rest)
      | short => String.ofList short
    mantissa ++ "e" ++ toString (point - 1)

end Decimal

/-- Whether the sign bit of a double is set. -/
def isNegative (x : Float) : Bool := x.toBits.toNat / Nat.pow 2 63 == 1

/-- How doubles are written: which of two decimals equally near is taken, the text of zero, and how
the digits of a decimal are laid out. -/
structure FloatForm where
  tie : Decimal.Tie
  zero : String
  write : Decimal → String

/-- A double written as its shortest decimal. -/
def FloatForm.text (form : FloatForm) (x : Float) : String :=
  let sign := if isNegative x then "-" else ""
  if x.isNaN then "NaN"
  else if x.isInf then sign ++ "inf"
  else
    let d := Decimal.Dyadic.ofBits x.toBits.toNat
    sign ++ if d.mantissa = 0 then form.zero else form.write (d.shortest form.tie)

/-- In messages all digits stand in place, a whole number has no point, and of two decimals equally
near the greater one is taken. -/
def plainForm : FloatForm := ⟨.up, "0", Decimal.positional⟩

/-- In values there is always a point, the very large and the very small have an exponent, and of two
decimals equally near the one with the even last digit is taken. -/
def exponentForm : FloatForm := ⟨.even, "0.0", Decimal.scientific⟩

/-- A double as it stands in a message. -/
def plainText (x : Float) : String := plainForm.text x

/-- A double as it stands in a value. -/
def exponentText (x : Float) : String := exponentForm.text x

/-- A positive double, or zero, rounded to `count` places after the point. -/
def Decimal.Dyadic.fixed (d : Dyadic) (count : Nat) : Decimal :=
  let num := d.mantissa * Nat.pow 2 d.exponent.toNat * Nat.pow 10 count
  ⟨nearest .even num (Nat.pow 2 (-d.exponent).toNat), -count⟩

/-- A double with `count` places after the point. -/
def fixedText (count : Nat) (x : Float) : String :=
  let sign := if isNegative x then "-" else ""
  if x.isNaN then "NaN"
  else if x.isInf then sign ++ "inf"
  else sign ++ ((Decimal.Dyadic.ofBits x.toBits.toNat).fixed count).positional

/-- The double nearest to a decimal. Exponents past every double are cut short, so that no huge power
is computed. -/
def ofDecimal (d : Decimal) : Float :=
  let count : Int := Decimal.digitCount d.digits
  if d.digits = 0 then 0.0
  else if 400 < count + d.exponent then 1.0 / 0.0
  else if count + d.exponent < -400 then 0.0
  else if 0 ≤ d.exponent then Float.ofScientific (d.digits * Nat.pow 10 d.exponent.toNat) false 0
  else Float.ofScientific d.digits true (-d.exponent).toNat

end CodeIndex
