import LiveConfig.Number.Double

/-!
# Number — Numeral

Reading numbers from text: whole numbers with an optional sign, and decimals with an optional sign,
point and exponent. No blanks, no separators, and nothing may follow the number.
-/

namespace LiveConfig.Numeral

/-- The value of a digit. -/
def digitValue (c : Char) : Nat := c.toNat - '0'.toNat

/-- The whole number that a row of digits stands for. -/
def ofDigits (cs : List Char) : Nat := cs.foldl (fun n c => 10 * n + digitValue c) 0

/-- A whole number without a sign: digits and nothing else. -/
def nat? (cs : List Char) : Option Nat :=
  if !cs.isEmpty && cs.all Char.isDigit then some (ofDigits cs) else none

/-- A whole number below `2 ^ 64`, with an optional plus sign. -/
def unsigned64? : List Char → Option Nat
  | '+' :: digits => within digits
  | digits => within digits
where
  within (digits : List Char) : Option Nat := (nat? digits).filter (· < 0x10000000000000000)

/-- A whole number between `lo` and `hi`, with an optional sign. -/
def int? (lo hi : Int) : List Char → Option Int
  | '-' :: digits => within (fun n => -n) digits
  | '+' :: digits => within id digits
  | digits => within id digits
where
  within (sign : Int → Int) (digits : List Char) : Option Int :=
    ((nat? digits).map fun n => sign (n : Int)).filter fun n => lo ≤ n ∧ n ≤ hi

/-- A whole number that 64 bits with sign can hold. -/
def int64? (cs : List Char) : Option Int := int? (-0x8000000000000000) 0x7fffffffffffffff cs

/-- The exponent that may follow the digits of a decimal. -/
def exponent? : List Char → Option Int
  | [] => some 0
  | c :: rest =>
    if c = 'e' ∨ c = 'E' then
      match rest with
      | '-' :: digits => (nat? digits).map fun n => -(n : Int)
      | '+' :: digits => (nat? digits).map fun n => (n : Int)
      | digits => (nat? digits).map fun n => (n : Int)
    else none

/-- A decimal without a sign: digits with an optional point on either side, then the exponent. -/
def decimal? (neg : Bool) (cs : List Char) : Option Double :=
  let whole := cs.takeWhile Char.isDigit
  let rest := cs.dropWhile Char.isDigit
  let (fraction, tail) :=
    match rest with
    | '.' :: more => (more.takeWhile Char.isDigit, more.dropWhile Char.isDigit)
    | _ => ([], rest)
  if whole.isEmpty && fraction.isEmpty then none
  else
    (exponent? tail).map fun e =>
      Double.ofDecimal neg (ofDigits (whole ++ fraction)) (e - fraction.length)

/-- A decimal, an infinity or no number, in any case, with an optional sign. -/
def double? : List Char → Option Double
  | '-' :: rest => unsigned true rest
  | '+' :: rest => unsigned false rest
  | rest => unsigned false rest
where
  unsigned (neg : Bool) (cs : List Char) : Option Double :=
    let word := String.ofList (cs.map Char.toLower)
    if word = "inf" ∨ word = "infinity" then some (.infinity neg)
    else if word = "nan" then some .nan
    else decimal? neg cs

end LiveConfig.Numeral
