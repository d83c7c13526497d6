/-!
# Double-precision numbers

A numeric literal denotes a binary64 number. A `Double` is such a number given by its 64 bits, and
every operation is exact integer arithmetic on the magnitude `significand · 2 ^ exponent` that the
bits encode, so that nothing depends on the rounding mode of a machine.

## Main definitions

* `Verbatim.powTwo`, `Verbatim.powTen` — the powers of two and of ten.
* `Verbatim.Double` — a binary64 number.
* `Verbatim.Double.ofRatio` — the number nearest to a quotient, ties to the even significand.
* `Verbatim.Double.ofDecimal` — the number nearest to `digits · 10 ^ exponent`.
* `Verbatim.Double.scaleTen` — a number times a power of ten, rounded at each step.
* `Verbatim.Double.ofDigits` — the number reached by taking in the digits of a radix one by one.
-/

namespace Verbatim

/-- The powers of two. -/
def powTwo (k : Nat) : Nat := Nat.pow 2 k

/-- The powers of ten. -/
def powTen (k : Nat) : Nat := Nat.pow 10 k

/-- A binary64 number: one sign bit, eleven exponent bits and fifty-two fraction bits. -/
structure Double where
  /-- The encoding. -/
  bits : UInt64
deriving DecidableEq, Repr, Inhabited

namespace Double

/-! ## Reading the bits -/

/-- The sign bit is set. -/
def isNegative (x : Double) : Bool := x.bits.toNat ≥ powTwo 63

/-- The bits without the sign. -/
def magnitudeBits (x : Double) : Nat := x.bits.toNat % powTwo 63

/-- The eleven exponent bits. -/
def biasedExponent (x : Double) : Nat := x.magnitudeBits / powTwo 52

/-- The fifty-two fraction bits. -/
def fraction (x : Double) : Nat := x.magnitudeBits % powTwo 52

/-- Not a number. -/
def isNaN (x : Double) : Bool := x.biasedExponent = 2047 && x.fraction ≠ 0

/-- Plus or minus infinity. -/
def isInfinite (x : Double) : Bool := x.biasedExponent = 2047 && x.fraction = 0

/-- Plus or minus zero. -/
def isZero (x : Double) : Bool := x.magnitudeBits = 0

/-- The integer `m` of the magnitude `m · 2 ^ e` of a finite number. -/
def significand (x : Double) : Nat :=
  if x.biasedExponent = 0 then x.fraction else x.fraction + powTwo 52

/-- The power `e` of the magnitude `m · 2 ^ e` of a finite number. -/
def exponent (x : Double) : Int :=
  if x.biasedExponent = 0 then -1074 else (x.biasedExponent : Int) - 1075

/-- Whether the magnitude of a finite number is a whole number. -/
def isWhole (x : Double) : Bool :=
  0 ≤ x.exponent || x.significand % powTwo (-x.exponent).toNat = 0

/-! ## Rounding to the nearest number -/

/-- Plus infinity. -/
def infinity : Double := ⟨0x7FF0000000000000⟩

/-- Plus zero. -/
def zero : Double := ⟨0⟩

/-- A quotient rounded to the nearest natural number, a half going to the even neighbour. -/
def roundQuotient (num den : Nat) : Nat :=
  let quotient := num / den
  let rest := num % den
  if den < 2 * rest || (2 * rest = den && quotient % 2 = 1) then quotient + 1 else quotient

/-- Multiplies a fraction, given by numerator and denominator, by `2 ^ shift`. -/
def scaleTwo (num den : Nat) (shift : Int) : Nat × Nat :=
  (num * powTwo shift.toNat, den * powTwo (-shift).toNat)

/-- The `k` with `2 ^ k ≤ num / den < 2 ^ (k + 1)`, for positive `num` and `den`. -/
def binaryOrder (num den : Nat) : Int :=
  let guess := (num.log2 : Int) - (den.log2 : Int)
  let (n, d) := scaleTwo num den (-guess)
  if d ≤ n then guess else guess - 1

/-- The number nearest to `num / den`, for positive `den`; a half goes to the even significand,
and what lies beyond the largest finite number is infinite.

The significand is rounded at the exponent of the quotient's leading bit, or at the least exponent
there is. Adding it to the exponent field lets a carry out of the significand step the exponent. -/
def ofRatio (num den : Nat) : Double :=
  if num = 0 then zero
  else
    let order := max (binaryOrder num den - 52) (-1074)
    let (n, d) := scaleTwo num den (-order)
    let encoding := (order + 1074).toNat * powTwo 52 + roundQuotient n d
    if encoding < infinity.bits.toNat then ⟨encoding.toUInt64⟩ else infinity

/-- The number nearest to a natural number. -/
def ofNat (n : Nat) : Double := ofRatio n 1

/-- The number nearest to `digits · 10 ^ power`. Quotients far outside the range of finite numbers
are settled by the order of magnitude alone. -/
def ofDecimal (digits : Nat) (power : Int) : Double :=
  let order := (Nat.toDigits 10 digits).length + power
  if digits = 0 || order < -330 then zero
  else if 310 < order then infinity
  else ofRatio (digits * powTen power.toNat) (powTen (-power).toNat)

/-- The magnitude of a finite number as a quotient. -/
def ratio (x : Double) : Nat × Nat := scaleTwo x.significand 1 x.exponent

/-- The product of two magnitudes, rounded. -/
def times (x y : Double) : Double := ofRatio (x.ratio.1 * y.ratio.1) (x.ratio.2 * y.ratio.2)

/-- The quotient of two magnitudes, rounded; the divisor is not zero. -/
def dividedBy (x y : Double) : Double := ofRatio (x.ratio.1 * y.ratio.2) (x.ratio.2 * y.ratio.1)

/-- A magnitude times a power of ten, rounded at each step: one multiplication or division by a
power that is a number itself, after as many divisions by the greatest such power as it takes. -/
def scaleTen (x : Double) (power : Int) : Double :=
  if power < -308 then
    if x.isZero then x else (x.dividedBy (ofDecimal 1 308)).scaleTen (power + 308)
  else if power < 0 then x.dividedBy (ofDecimal 1 (-power))
  else if power ≤ 308 then x.times (ofDecimal 1 power)
  else if x.isZero then x
  else infinity
termination_by (-power).toNat
decreasing_by omega

/-- A natural number rounded to fifty-three significant bits, a half going to the even one. -/
def roundSignificand (n : Nat) : Nat :=
  let excess := n.log2 - 52
  roundQuotient n (powTwo excess) * powTwo excess

/-- The number reached from zero by multiplying by `radix` and adding a digit, rounding after each
digit. -/
def ofDigits (radix : Nat) (digits : List Nat) : Double :=
  ofNat (digits.foldl (fun value digit => roundSignificand (value * radix + digit)) 0)

end Double

end Verbatim
