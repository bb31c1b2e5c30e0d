import LiveConfig.JsonText.Numeral

/-!
# JsonText — Token

The words of a JSON text, read from its octets. A text keeps its octets and the code units of its
escapes apart, since whether they make sense matters only where the text is wanted.
-/

namespace LiveConfig.JsonText

/-- A piece of a text: an octet, or a code unit of 16 bits that was escaped. -/
inductive Piece where
  | octet (b : UInt8)
  | unit (n : Nat)

inductive Token where
  | listOpen
  | listClose
  | objectOpen
  | objectClose
  | colon
  | comma
  | null
  | bool (b : Bool)
  | number (n : Numeral)
  | text (pieces : List Piece)

namespace Token

/-- An octet as the character with its number. -/
def char (b : UInt8) : Char := Char.ofNat b.toNat

def isSpace (b : UInt8) : Bool := b == 0x20 || b == 0x09 || b == 0x0A || b == 0x0D

def isDigit (b : UInt8) : Bool := (char b).isDigit

/-- The digits in front, and what follows them. -/
def digits (bs : List UInt8) : List Nat × List UInt8 :=
  ((bs.takeWhile isDigit).map fun b => b.toNat - 0x30, bs.dropWhile isDigit)

/-- The value of a hexadecimal digit. -/
def hexValue? (b : UInt8) : Option Nat :=
  let c := char b
  if c.isDigit then some (b.toNat - 0x30)
  else if 'a' ≤ c ∧ c ≤ 'f' then some (b.toNat - 0x57)
  else if 'A' ≤ c ∧ c ≤ 'F' then some (b.toNat - 0x37)
  else none

/-- The octet of a short escape. -/
def escaped? (b : UInt8) : Option UInt8 :=
  match char b with
  | '\x22' => some 0x22
  | '\\' => some 0x5C
  | '/' => some 0x2F
  | 'b' => some 0x08
  | 'f' => some 0x0C
  | 'n' => some 0x0A
  | 'r' => some 0x0D
  | 't' => some 0x09
  | _ => none

/-- The pieces of a text up to its closing quote, and what follows that. -/
def pieces? : List UInt8 → Option (List Piece × List UInt8)
  | [] => none
  | b :: rest =>
    if b = 0x22 then some ([], rest)
    else if b = 0x5C then
      match rest with
      | 0x75 :: h₁ :: h₂ :: h₃ :: h₄ :: rest => do
        let n := 0x1000 * (← hexValue? h₁) + 0x100 * (← hexValue? h₂) + 0x10 * (← hexValue? h₃) +
          (← hexValue? h₄)
        let (ps, rest) ← pieces? rest
        return (.unit n :: ps, rest)
      | e :: rest => do
        let octet ← escaped? e
        let (ps, rest) ← pieces? rest
        return (.octet octet :: ps, rest)
      | [] => none
    else if b < 0x20 then none
    else do
      let (ps, rest) ← pieces? rest
      return (.octet b :: ps, rest)

/-- The exponent of a number, if one follows. -/
def exponent? (bs : List UInt8) : Option (Option (Bool × List Nat) × List UInt8) :=
  match bs with
  | [] => some (none, [])
  | e :: rest =>
    if char e = 'e' ∨ char e = 'E' then
      let (neg, rest) :=
        match rest with
        | 0x2D :: rest => (true, rest)
        | 0x2B :: rest => (false, rest)
        | _ => (false, rest)
      let (ds, rest) := digits rest
      if ds.isEmpty then none else some (some (neg, ds), rest)
    else some (none, bs)

/-- A number behind its sign. A leading zero stands alone, and a point is followed by a digit. -/
def numeral? (neg : Bool) (bs : List UInt8) : Option (Token × List UInt8) := do
  let (whole, rest) := digits bs
  if whole.isEmpty || (whole.head? == some 0 && whole.length != 1) then none
  let (fraction, rest) ←
    match rest with
    | 0x2E :: rest =>
      let (ds, rest) := digits rest
      if ds.isEmpty then none else some (ds, rest)
    | _ => some ([], rest)
  let (exponent, rest) ← exponent? rest
  return (.number ⟨neg, whole, fraction, exponent⟩, rest)

/-- The token in front, and what follows it. -/
def next? (b : UInt8) (rest : List UInt8) : Option (Token × List UInt8) :=
  match char b, rest with
  | '[', _ => some (.listOpen, rest)
  | ']', _ => some (.listClose, rest)
  | '\x7b', _ => some (.objectOpen, rest)
  | '\x7d', _ => some (.objectClose, rest)
  | ':', _ => some (.colon, rest)
  | ',', _ => some (.comma, rest)
  | '\x22', _ => (pieces? rest).map fun (ps, rest) => (.text ps, rest)
  | '-', _ => numeral? true rest
  | 'n', 0x75 :: 0x6C :: 0x6C :: rest => some (.null, rest)
  | 't', 0x72 :: 0x75 :: 0x65 :: rest => some (.bool true, rest)
  | 'f', 0x61 :: 0x6C :: 0x73 :: 0x65 :: rest => some (.bool false, rest)
  | _, _ => numeral? false (b :: rest)

/-- All tokens, with fuel for one octet each. -/
def scanFrom? : Nat → List UInt8 → Option (List Token)
  | _, [] => some []
  | 0, _ :: _ => none
  | fuel + 1, b :: rest =>
    if isSpace b then scanFrom? fuel rest
    else do
      let (t, rest) ← next? b rest
      let ts ← scanFrom? fuel rest
      return t :: ts

/-- All tokens of a text. -/
def scan? (bs : List UInt8) : Option (List Token) := scanFrom? bs.length bs

end Token

end LiveConfig.JsonText
