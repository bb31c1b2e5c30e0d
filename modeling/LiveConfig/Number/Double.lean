/-!
# Number — Double

Double-precision numbers as their 64 bits, with exact arithmetic. A finite double is a whole number
`m` shifted left by `e`, counted in units of the smallest positive double, 2 ^ -1074. Every rounding
here is to the nearest double, ties to the even one, and goes through `ofRatio`.
-/

namespace LiveConfig

/-- A double-precision number, as its bits. -/
structure Double where
  bits : UInt64
deriving DecidableEq

namespace Double

/-- What a double stands for: no number, an infinity, or `m * 2 ^ e` units of 2 ^ -1074. -/
inductive Reading where
  | nan
  | infinite (neg : Bool)
  | finite (neg : Bool) (m e : Nat)

/-- One, counted in units of the smallest positive double. -/
def one : Nat := Nat.pow 2 1074

/-- How many fractions go with one exponent. -/
def fractions : Nat := 0x10000000000000

/-- The weight of the sign bit. -/
def signBit : Nat := 0x8000000000000000

/-- The bits of infinity without its sign. -/
def infinityBits : Nat := 2047 * fractions

/-- The sign bit, the exponent field and the fraction field, read together. -/
def read (x : Double) : Reading :=
  let n := x.bits.toNat
  let neg := decide (signBit ≤ n)
  let field := n / fractions % 2048
  let fraction := n % fractions
  if field = 2047 then (if fraction = 0 then .infinite neg else .nan)
  else if field = 0 then .finite neg fraction 0
  else .finite neg (fractions + fraction) (field - 1)

/-- The double whose bits are `magnitude`, with the sign bit set when `neg`. -/
def ofMagnitude (neg : Bool) (magnitude : Nat) : Double :=
  ⟨((if neg then signBit else 0) + magnitude).toUInt64⟩

def infinity (neg : Bool) : Double := ofMagnitude neg infinityBits

def zero (neg : Bool) : Double := ofMagnitude neg 0

def nan : Double := ofMagnitude false (infinityBits + fractions / 2)

def isNan (x : Double) : Bool :=
  match x.read with
  | .nan => true
  | _ => false

def isInfinite (x : Double) : Bool :=
  match x.read with
  | .infinite _ => true
  | _ => false

/-- Either zero. -/
def isZero (x : Double) : Bool :=
  match x.read with
  | .finite _ m _ => m == 0
  | _ => false

/-- The sign bit is set. -/
def isNegative (x : Double) : Bool := decide (signBit ≤ x.bits.toNat)

/-- The same number with the other sign. -/
def negate (x : Double) : Double :=
  ofMagnitude (!x.isNegative) (x.bits.toNat % signBit)

/-! ### Rounding -/

/-- The whole number nearest to `a / b`, the even one of two. -/
def nearestEven (a b : Nat) : Nat :=
  let q := a / b
  let r := a % b
  if 2 * r < b then q
  else if b < 2 * r then q + 1
  else q + q % 2

/-- The whole number nearest to `a / b`, the greater one of two. -/
def nearestUp (a b : Nat) : Nat := (2 * a + b) / (2 * b)

/-- The double nearest to `num / den`, or infinity beyond the greatest double. -/
def ofRatio (neg : Bool) (num den : Nat) : Double :=
  let units := num * one
  let e := (units / den).log2 - 52
  let magnitude := e * fractions + nearestEven units (den * Nat.pow 2 e)
  ofMagnitude neg (min magnitude infinityBits)

/-- The double nearest to a whole number. -/
def ofInt (n : Int) : Double := ofRatio (decide (n < 0)) n.natAbs 1

/-- The double nearest to `digits * 10 ^ exponent`. Exponents so far out that the answer is zero or
infinity whatever the digits are cut short. -/
def ofDecimal (neg : Bool) (digits : Nat) (exponent : Int) : Double :=
  if digits = 0 then zero neg
  else
    let width : Int := digits.log2 / 3 + 1
    if exponent > 400 then infinity neg
    else if exponent + width < -400 then zero neg
    else if 0 ≤ exponent then ofRatio neg (digits * Nat.pow 10 exponent.toNat) 1
    else ofRatio neg digits (Nat.pow 10 (-exponent).toNat)

/-- The double nearest to the product. -/
def mul (x y : Double) : Double :=
  let neg := x.isNegative != y.isNegative
  match x.read, y.read with
  | .finite _ m e, .finite _ n f => ofRatio neg (m * n * Nat.pow 2 (e + f)) (one * one)
  | .infinite _, .infinite _ => infinity neg
  | .infinite _, .finite _ n _ => if n = 0 then nan else infinity neg
  | .finite _ m _, .infinite _ => if m = 0 then nan else infinity neg
  | _, _ => nan

/-- The double nearest to the quotient. -/
def div (x y : Double) : Double :=
  let neg := x.isNegative != y.isNegative
  match x.read, y.read with
  | .finite _ m e, .finite _ n f =>
    if n = 0 then (if m = 0 then nan else infinity neg)
    else ofRatio neg (m * Nat.pow 2 e) (n * Nat.pow 2 f)
  | .infinite _, .finite _ _ _ => infinity neg
  | .finite _ _ _, .infinite _ => zero neg
  | _, _ => nan

/-! ### Whole numbers -/

/-- The nearest whole number, halves away from zero, kept between `lo` and `hi`. What is no number
counts as zero. -/
def toIntWithin (lo hi : Int) (x : Double) : Int :=
  match x.read with
  | .nan => 0
  | .infinite neg => if neg then lo else hi
  | .finite neg m e =>
    let n : Int := nearestUp (m * Nat.pow 2 e) one
    max lo (min hi (if neg then -n else n))

end Double

end LiveConfig
