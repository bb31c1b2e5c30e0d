import LiveConfig.Number.Double

/-!
# JsonText — Numeral

The value of a number that is written in JSON. Whole numbers that fit 64 bits are exact. Everything
else becomes a double in two roundings: the digits that fit 64 bits without sign make the significand,
and that is multiplied with or divided by a power of ten. What is beyond the greatest double is refused.
-/

namespace LiveConfig.JsonText

/-- A number as written: its sign, the digits before and behind the point, and the exponent, if there
is one, as its sign and digits. -/
structure Numeral where
  neg : Bool
  whole : List Nat
  fraction : List Nat
  exponent : Option (Bool × List Nat)

/-- A number: a whole one between `-2 ^ 63` and `2 ^ 64 - 1`, or a double. -/
inductive Number where
  | whole (n : Int)
  | float (x : Double)

/-- The digits of a significand, and the power of ten that goes with them. -/
structure Significand where
  digits : Nat
  power : Int

namespace Significand

/-- One more digit, if 64 bits hold it too. -/
def push? (s d : Nat) : Option Nat := if 10 * s + d < 0x10000000000000000 then some (10 * s + d) else none

/-- The digits before the point: from the first one on that does not fit, all count as zeros. -/
def ofWhole (s : Nat) : List Nat → Significand
  | [] => ⟨s, 0⟩
  | d :: rest =>
    match push? s d with
    | some s' => ofWhole s' rest
    | none => ⟨s, rest.length + 1⟩

/-- Adds the digits behind the point: from the first one on that does not fit, all are left out. -/
def addFraction (s : Significand) : List Nat → Significand
  | [] => s
  | d :: rest =>
    match push? s.digits d with
    | some digits => addFraction ⟨digits, s.power - 1⟩ rest
    | none => s

/-- The significand of a number, its exponent aside. -/
def ofNumeral (n : Numeral) : Significand := (ofWhole 0 n.whole).addFraction n.fraction

end Significand

/-- A power of ten. -/
def powerOfTen (n : Nat) : Double := .ofRatio false (Nat.pow 10 n) 1

/-- Scales a double by a power of ten. Negative powers beyond the greatest power of ten that is a
double are taken in steps, of which `steps` are left; after two of them nothing is left to scale. -/
def scale? : (steps : Nat) → (power : Int) → (x : Double) → Option Double
  | steps, power, x =>
    if power.natAbs ≤ 308 then
      if 0 ≤ power then
        let y := x.mul (powerOfTen power.natAbs)
        if y.isInfinite then none else some y
      else some (x.div (powerOfTen power.natAbs))
    else if x.isZero then some x
    else if 0 ≤ power then none
    else
      match steps with
      | 0 => some (.zero false)
      | steps + 1 => scale? steps (power + 308) (x.div (powerOfTen 308))

/-- The double with a significand and a sign. -/
def ofSignificand? (neg : Bool) (s : Significand) : Option Double :=
  (scale? 3 s.power (.ofRatio false s.digits 1)).map fun x => if neg then x.negate else x

namespace Numeral

/-- The exponent as a number. -/
def power (n : Numeral) : Int :=
  match n.exponent with
  | none => 0
  | some (neg, digits) =>
    let e : Nat := digits.foldl (fun e d => 10 * e + d) 0
    if neg then -(e : Int) else e

/-- The value of a number. The negative zero is a double. -/
def number? (n : Numeral) : Option Number :=
  let s := Significand.ofNumeral n
  if n.fraction.isEmpty && n.exponent.isNone && s.power == 0 && (!n.neg || s.digits ≤ 0x8000000000000000)
      && !(n.neg && s.digits == 0) then
    some (.whole (if n.neg then -s.digits else s.digits))
  else (ofSignificand? n.neg { s with power := s.power + n.power }).map .float

end Numeral

end LiveConfig.JsonText
