import LiveConfig.Number.Double

/-!
# Number — Shortest

The decimal text of a double. Of the decimals that read back as the double, the text has one with the
fewest digits, and of those the nearest to the double, the greater one of two. It is written out
without an exponent and without a point that nothing follows.
-/

namespace LiveConfig.Double

/-- The decimals that round to a positive double, with ends: all numbers between `lo` and `hi`, in
quarters of `2 ^ e` units, the ends included when `closed`. -/
structure Interval where
  lo : Nat
  mid : Nat
  hi : Nat
  closed : Bool

/-- The numbers that round to `m * 2 ^ e` units. The neighbour below is nearer where the exponent
field steps. -/
def interval (m e : Nat) : Interval :=
  let below := if m = 0x10000000000000 ∧ e ≠ 0 then 1 else 2
  ⟨4 * m - below, 4 * m, 4 * m + 2, m % 2 == 0⟩

/-- `num / den` lies in the interval. -/
def Interval.holds (i : Interval) (num den : Nat) : Bool :=
  if i.closed then i.lo * den ≤ num && num ≤ i.hi * den
  else i.lo * den < num && num < i.hi * den

/-- The multiple of `num / den` that lies in the interval and is nearest to its middle, if one does. -/
def Interval.pick (i : Interval) (num den : Nat) : Option Nat :=
  let d := i.mid * den / num
  match i.holds (d * num) den, i.holds ((d + 1) * num) den with
  | true, true => some (if 2 * (i.mid * den) < (2 * d + 1) * num then d else d + 1)
  | true, false => some d
  | false, true => some (d + 1)
  | false, false => none

/-- One power of ten, as a fraction in quarters of `2 ^ e` units. -/
def step (e : Nat) (k : Int) : Nat × Nat :=
  if 0 ≤ k then (Nat.pow 10 k.toNat * 4 * one, Nat.pow 2 e)
  else (4 * one, Nat.pow 10 (-k).toNat * Nat.pow 2 e)

/-- Looks on ever finer decimal grids, from `10 ^ k` down, for a number of the interval. -/
def search (i : Interval) (e : Nat) : Nat → Int → Nat × Int
  | 0, k => (0, k)
  | fuel + 1, k =>
    let (num, den) := step e k
    match i.pick num den with
    | some d => (d, k)
    | none => search i e fuel (k - 1)

/-- The digits and the power of ten of the shortest decimal for `m * 2 ^ e` units, `m` positive. The
search starts above the number, so that at most twenty grids are looked at. -/
def shortest (m e : Nat) : Nat × Int :=
  let log2 : Int := (m.log2 + e : Nat) - 1074
  search (interval m e) e 30 ((log2 + 1) * 30103 / 100000 + 2)

/-- A whole number with at least `width` digits. -/
def padded (width n : Nat) : List Char :=
  let digits := Nat.toDigits 10 n
  List.replicate (width - digits.length) '0' ++ digits

/-- `digits * 10 ^ k` written out. -/
def positional (digits : Nat) (k : Int) : List Char :=
  if 0 ≤ k then Nat.toDigits 10 digits ++ List.replicate k.toNat '0'
  else
    let places := (-k).toNat
    let text := padded (places + 1) digits
    text.take (text.length - places) ++ '.' :: text.drop (text.length - places)

/-- The decimal text of a double. -/
def text (x : Double) : String :=
  match x.read with
  | .nan => "NaN"
  | .infinite neg => if neg then "-inf" else "inf"
  | .finite neg m e =>
    let sign := if neg then ['-'] else []
    let digits :=
      if m = 0 then ['0']
      else
        let (d, k) := shortest m e
        positional d k
    String.ofList (sign ++ digits)

end LiveConfig.Double
