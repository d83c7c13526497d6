import Verbatim.Number.Double

/-!
# The shortest decimal spelling of a number

A finite number is written with the fewest significant digits that read back as the same number,
and among those with the ones nearest to it.

The library that spells a number with a point or an exponent, `ryu`, is not among the sources: the
search below stands for its documented behaviour, the shortest spelling that reads back. No proof
opens it: what is proved of edited numbers holds of any spelling.

## Main definitions

* `Verbatim.Decimal` — a natural number of digits and a power of ten.
* `Verbatim.Double.shortest` — the shortest decimal that reads back as a given positive number.
* `Verbatim.Double.render` — the canonical spelling of a number.
-/

namespace Verbatim

/-- The value `digits · 10 ^ power`. -/
structure Decimal where
  /-- The significant digits. -/
  digits : Nat
  /-- The power of ten they are multiplied by. -/
  power : Int
deriving DecidableEq, Repr

namespace Decimal

/-- Moves trailing zeros from the digits into the power, at most `fuel` of them. -/
def trim : Nat → Decimal → Decimal
  | 0, d => d
  | fuel + 1, d =>
    if d.digits ≠ 0 && d.digits % 10 = 0 then trim fuel ⟨d.digits / 10, d.power + 1⟩ else d

/-- The digits as characters. -/
def text (d : Decimal) : List Char := Nat.toDigits 10 d.digits

/-- The `k` with `10 ^ (k - 1) ≤ value < 10 ^ k`. -/
def order (d : Decimal) : Int := d.text.length + d.power

/-- All digits in front of the point, for a whole number. -/
def plain (d : Decimal) : String :=
  String.ofList (d.text ++ List.replicate d.power.toNat '0')

/-- A point inside the digits, or a leading zero and zeros down to the digits, while at most
sixteen digits precede the point and at most four zeros follow it; an exponent otherwise, with the
given mark in front if it is not negative. -/
def scientific (d : Decimal) (plus : String) : String :=
  let order := d.order
  if 0 < order && order ≤ 16 then
    let (whole, rest) := d.text.splitAt order.toNat
    let whole := whole ++ List.replicate (order.toNat - whole.length) '0'
    String.ofList (whole ++ '.' :: (if rest.isEmpty then ['0'] else rest))
  else if -5 < order && order ≤ 0 then
    String.ofList ('0' :: '.' :: List.replicate (-order).toNat '0' ++ d.text)
  else
    let tail := d.text.drop 1
    let mantissa := d.text.take 1 ++ (if tail.isEmpty then [] else '.' :: tail)
    String.ofList mantissa ++ "e" ++ (if order < 1 then "" else plus) ++ toString (order - 1)

end Decimal

/-! ## The search for the fewest digits -/

/-- The least `j ≤ fuel` with `den ≤ num · 10 ^ j`, counting on from `j`. -/
def leadingZeros (den : Nat) : Nat → Nat → Nat → Nat
  | 0, _, j => j
  | fuel + 1, num, j => if den ≤ num then j else leadingZeros den fuel (num * 10) (j + 1)

/-- The `k` with `10 ^ (k - 1) ≤ num / den < 10 ^ k`, for a positive quotient that is not below
the least positive number. -/
def decimalOrder (num den : Nat) : Int :=
  if den ≤ num then (Nat.toDigits 10 (num / den)).length
  else 1 - (leadingZeros den 400 num 0 : Int)

/-- A positive number and the ends of the interval of reals that round to it, over one
denominator. -/
structure Neighbourhood where
  /-- The lower end. -/
  low : Nat
  /-- The number itself. -/
  value : Nat
  /-- The upper end. -/
  high : Nat
  /-- The common denominator. -/
  den : Nat
  /-- Whether the ends themselves round to the number. -/
  closed : Bool

/-- The interval that rounds to a positive finite number: half a unit of the significand to each
side, but a quarter below a power of two; the ends belong to it when the significand is even. -/
def Double.neighbourhood (x : Double) : Neighbourhood :=
  let m := x.significand
  let below := if m = powTwo 52 && x.biasedExponent > 1 then 1 else 2
  let up := powTwo x.exponent.toNat
  { low := (4 * m - below) * up
    value := 4 * m * up
    high := (4 * m + 2) * up
    den := 4 * powTwo (-x.exponent).toNat
    closed := m % 2 = 0 }

/-- Whether `digits · 10 ^ power` rounds to the number. -/
def Neighbourhood.holds (n : Neighbourhood) (digits : Nat) (power : Int) : Bool :=
  let point := digits * powTen power.toNat * n.den
  let low := n.low * powTen (-power).toNat
  let high := n.high * powTen (-power).toNat
  if n.closed then low ≤ point && point ≤ high else low < point && point < high

/-- The multiple of `10 ^ power` nearest to the number that rounds to it, if one of the two
multiples around the number does. -/
def Neighbourhood.nearest? (n : Neighbourhood) (power : Int) : Option Decimal :=
  let num := n.value * powTen (-power).toNat
  let den := n.den * powTen power.toNat
  let floor := num / den
  let rounded := Double.roundQuotient num den
  let other := if rounded = floor then floor + 1 else floor
  if n.holds rounded power then some ⟨rounded, power⟩
  else if n.holds other power then some ⟨other, power⟩
  else none

/-- Tries ever finer grids, starting with `count` significant digits. -/
def Neighbourhood.search (n : Neighbourhood) (order : Int) : Nat → Nat → Decimal
  | 0, count =>
    ⟨n.value * powTen (count - order).toNat / (n.den * powTen (order - count).toNat), order - count⟩
  | fuel + 1, count =>
    match n.nearest? (order - count) with
    | some d => d
    | none => n.search order fuel (count + 1)

/-- The shortest decimal that reads back as a positive finite number, nearest of its length. -/
def Double.shortest (x : Double) : Decimal :=
  let n := x.neighbourhood
  (n.search (decimalOrder n.value n.den) 17 1).trim 400

/-- The canonical spelling of a number: whole numbers below `10 ^ 21` in full, others with a point
or an exponent. -/
def Double.render (x : Double) : String :=
  let sign := if x.isNegative then "-" else ""
  if x.isNaN then "NaN"
  else if x.isInfinite then sign ++ "Infinity"
  else if x.isZero then sign ++ "0"
  else if x.isWhole &&
      x.significand * powTwo x.exponent.toNat < powTen 21 * powTwo (-x.exponent).toNat then
    sign ++ x.shortest.plain
  else
    sign ++ x.shortest.scientific ""

end Verbatim
