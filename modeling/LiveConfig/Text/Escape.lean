import LiveConfig.Text.Classes
import LiveConfig.Text.Utf8

/-!
# Text — Escape

Characters and octets written by means of other characters: numbers in hexadecimal digits, octets
behind percent signs, a text between quotes, and octets in sixty-four characters.
-/

namespace LiveConfig.Text

/-! ### Hexadecimal digits -/

/-- A hexadecimal digit in either case. -/
def isHex (c : Char) : Bool := c.isDigit || ('a' ≤ c && c ≤ 'f') || ('A' ≤ c && c ≤ 'F')

/-- The value of a hexadecimal digit. -/
def hexValue (c : Char) : Nat := if c.isDigit then c.toNat - 0x30 else c.toLower.toNat - 0x57

/-- The number that hexadecimal digits spell. -/
def ofHex (cs : List Char) : Nat := cs.foldl (fun n c => 16 * n + hexValue c) 0

/-- A hexadecimal digit in upper case. -/
def hexDigit (n : Nat) : Char := Char.ofNat (if n < 10 then 0x30 + n else 0x37 + n)

/-- The character with a number. -/
def charOf? (n : Nat) : Option Char := if n.isValidChar then some (Char.ofNat n) else none

/-! ### Percent signs -/

/-- An octet as its two digits behind a percent sign. -/
def escapedOctet (b : UInt8) : List Char := ['%', hexDigit (b.toNat / 16), hexDigit (b.toNat % 16)]

/-- The text with all characters but those that are to be kept escaped. -/
def percentEncode (keep : Char → Bool) (cs : List Char) : List Char :=
  cs.flatMap fun c => if keep c then [c] else (Utf8.encodeChar c).flatMap escapedOctet

/-! ### Quotes -/

/-- A character between quotes, where nothing is hidden: one that does not show on its own is given by
its number, and a quote or backslash stands behind a backslash. An apostrophe ends nothing and
stays. -/
def quotedChar (c : Char) : List Char :=
  if c = '\x00' then ['\\', '0']
  else if c = '\t' then ['\\', 't']
  else if c = '\n' then ['\\', 'n']
  else if c = '\r' then ['\\', 'r']
  else if c = '\\' ∨ c = '\x22' then ['\\', c]
  else if isHidden c then ['\\', 'u', '\x7b'] ++ Nat.toDigits 16 c.toNat ++ ['\x7d']
  else [c]

/-- A text between quotes. -/
def quoted (s : String) : String :=
  String.ofList ('\x22' :: s.toList.flatMap quotedChar ++ ['\x22'])

/-! ### Sixty-four characters -/

namespace Base64

/-- The six bits that a character stands for. -/
def bits? (c : Char) : Option Nat :=
  if 'A' ≤ c ∧ c ≤ 'Z' then some (c.toNat - 'A'.toNat)
  else if 'a' ≤ c ∧ c ≤ 'z' then some (c.toNat - 'a'.toNat + 26)
  else if c.isDigit then some (c.toNat - '0'.toNat + 52)
  else if c = '+' then some 62
  else if c = '/' then some 63
  else none

/-- The octets that a text stands for, four characters for three octets. Only the one canonical way to
write octets is read: the last group is filled up, and the bits that go unused are zero. -/
def decode? : List Char → Option (List UInt8)
  | [] => some []
  | [a, b, '=', '='] => do
    let x := 64 * (← bits? a) + (← bits? b)
    if x % 16 = 0 then return [(x / 16).toUInt8] else none
  | [a, b, c, '='] => do
    let x := 4096 * (← bits? a) + 64 * (← bits? b) + (← bits? c)
    if x % 4 = 0 then return [(x / 1024).toUInt8, (x / 4 % 256).toUInt8] else none
  | a :: b :: c :: d :: rest => do
    let x := 262144 * (← bits? a) + 4096 * (← bits? b) + 64 * (← bits? c) + (← bits? d)
    return (x / 65536).toUInt8 :: (x / 256 % 256).toUInt8 :: (x % 256).toUInt8 :: (← decode? rest)
  | _ => none

end Base64

end LiveConfig.Text
