import LiveConfig.Number.Numeral
import LiveConfig.Text.Escape
import LiveConfig.Text.Scan
import LiveConfig.Value

/-!
# Toml — Scalar

The single values of TOML: texts in four kinds of quotes, whole numbers and decimals with underscores
between their digits, truth values, and dates and times, which count as texts in one fixed form.
-/

namespace LiveConfig.Toml

open Text (Scan)
open Text.Scan

/-! ### Blanks and comments -/

def isSpace (c : Char) : Bool := c == ' ' || c == '\t'

/-- Blanks within a line. -/
def space : Scan Unit := do let _ ← while_ isSpace

/-- The end of a line. -/
def newline : Scan Unit := chars ['\n'] <|> chars ['\r', '\n']

/-- A character that may stand in a comment. -/
def isPlain (c : Char) : Bool := c == '\t' || (' ' ≤ c && c != '\x7f')

/-- A comment up to the end of its line. -/
def comment : Scan Unit := do
  char '#'
  let _ ← while_ isPlain

/-- What may follow the last thing in a line. -/
def lineEnd : Scan Unit := do
  space
  let _ ← option comment
  newline <|> done

/-- Blanks, comments and line ends between the values of a list. -/
def gap : Scan Unit := do
  space
  let _ ← many (do let _ ← option comment; newline; space)

/-! ### Texts -/

/-- A character with the number that so many hexadecimal digits spell. -/
def escapedCode (digits : Nat) : Scan Char := do
  let ds ← exactly digits Text.isHex
  StateT.lift (Text.charOf? (Text.ofHex ds))

/-- An escape. -/
def escape : Scan Char := do
  char '\\'
  match ← satisfy fun _ => true with
  | 'b' => return '\x08'
  | 't' => return '\t'
  | 'n' => return '\n'
  | 'f' => return '\x0c'
  | 'r' => return '\r'
  | '\x22' => return '\x22'
  | '\\' => return '\\'
  | 'u' => escapedCode 4
  | 'U' => escapedCode 8
  | _ => failure

/-- A character that stands for itself within double quotes. -/
def isBasic (c : Char) : Bool := isPlain c && c != '\x22' && c != '\\'

/-- A character that stands for itself within single quotes. -/
def isLiteral (c : Char) : Bool := isPlain c && c != '\x27'

/-- A text in one line between double quotes. -/
def basicText : Scan (List Char) := do
  char '\x22'
  let cs ← many (satisfy isBasic <|> escape)
  char '\x22'
  return cs

/-- A text in one line between single quotes. -/
def literalText : Scan (List Char) := do
  char '\x27'
  let cs ← while_ isLiteral
  char '\x27'
  return cs

/-- The quotes in front of a longer text's end or within it: up to two belong to the text. -/
def innerQuotes (quote : Char) : Scan (List Char) := fun cs =>
  let n := (cs.takeWhile (· == quote)).length
  if n = 0 || 5 < n then none
  else
    let own := if n < 3 then n else n - 3
    if own = 0 then none else some (List.replicate own quote, cs.drop own)

/-- A line end within a text, in one form. -/
def innerNewline : Scan (List Char) := do
  newline
  return ['\n']

/-- A line end that is escaped, with all blanks and line ends that follow. -/
def joinedLines : Scan (List Char) := do
  char '\\'
  space
  newline
  let _ ← many ((do let _ ← while1 isSpace) <|> newline)
  return []

/-- A text over several lines. -/
def longText (quote : Char) (piece : Scan (List Char)) : Scan (List Char) := do
  chars [quote, quote, quote]
  let _ ← option newline
  let pieces ← many (piece <|> innerNewline <|> innerQuotes quote)
  chars [quote, quote, quote]
  return pieces.flatten

/-- Any text. -/
def text : Scan (List Char) :=
  longText '\x22' (while1 isBasic <|> joinedLines <|> (do return [← escape])) <|> basicText <|>
    longText '\x27' (while1 isLiteral) <|> literalText

/-! ### Numbers -/

/-- Digits with single underscores between them; the underscores are left out. -/
def digitRow (isDigit : Char → Bool) : Scan (List Char) := do
  let d ← satisfy isDigit
  let rest ← many (satisfy isDigit <|> (do char '_'; satisfy isDigit))
  return d :: rest

/-- An optional sign, as it is written. -/
def sign : Scan (List Char) := do
  return (← option (satisfy fun c => c == '+' || c == '-')).toList

/-- A whole number in tens without a leading zero. -/
def tens : Scan (List Char) := do
  let s ← sign
  let ds ← (do char '0'; return ['0']) <|> digitRow Char.isDigit
  return s ++ ds

/-- A whole number to a base, behind the two characters that announce it. -/
def based (letter : Char) (base : Nat) : Scan Int := do
  chars ['0', letter]
  let ds ← digitRow fun c => Text.isHex c && Text.hexValue c < base
  return ds.foldl (fun n c => base * n + Text.hexValue c) 0

/-- A whole number that 64 bits with sign hold. -/
def whole : Scan Value := do
  let n ← based 'x' 16 <|> based 'o' 8 <|> based 'b' 2 <|>
    (do let ds ← tens; StateT.lift (Numeral.int64? ds))
  StateT.lift (Value.int? .i64 n)

/-- The part of a decimal behind the point. -/
def fraction : Scan (List Char) := do
  char '.'
  return '.' :: (← digitRow Char.isDigit)

/-- The exponent of a decimal. -/
def exponent : Scan (List Char) := do
  let _ ← satisfy fun c => c == 'e' || c == 'E'
  let s ← sign
  return 'e' :: s ++ (← digitRow Char.isDigit)

/-- A decimal; one that is too great is refused. -/
def decimal : Scan Double := do
  let ds ← tens
  let tail ← exponent <|> (do
    let f ← fraction
    return f ++ (← option exponent).getD [])
  let x ← StateT.lift (Numeral.double? (ds ++ tail))
  if x = .infinity false then failure else return x

/-- An infinity or no number. -/
def special : Scan Double := do
  let s ← sign
  (do chars ['i', 'n', 'f']; return .infinity (s == ['-'])) <|> (do chars ['n', 'a', 'n']; return .nan)

/-! ### Dates and times -/

/-- A number of so many digits within bounds. -/
def field (digits lo hi : Nat) : Scan Nat := do
  let n := Numeral.ofDigits (← exactly digits Char.isDigit)
  if lo ≤ n ∧ n ≤ hi then return n else failure

/-- A number with zeros in front. -/
def padded (width n : Nat) : String :=
  let s := n.repr
  String.ofList (List.replicate (width - s.length) '0') ++ s

def daysIn (year month : Nat) : Nat :=
  if month = 2 then
    if year % 4 = 0 ∧ (year % 100 ≠ 0 ∨ year % 400 = 0) then 29 else 28
  else if month = 4 ∨ month = 6 ∨ month = 9 ∨ month = 11 then 30 else 31

def date : Scan String := do
  let year ← field 4 0 9999
  char '-'
  let month ← field 2 1 12
  char '-'
  let day ← field 2 1 (daysIn year month)
  return padded 4 year ++ "-" ++ padded 2 month ++ "-" ++ padded 2 day

/-- The part of a second: nine digits count, and zeros at the end are not written. -/
def secondPart : Scan String := do
  char '.'
  let ds := ((← while1 Char.isDigit).take 9).reverse.dropWhile (· == '0')
  return if ds.isEmpty then "" else "." ++ String.ofList ds.reverse

/-- How far the hours of a clock go, the hours and minutes by which it may be off, and whether a day
without a time may be off, too. -/
structure Clock where
  hours : Nat
  zoneHours : Nat
  zoneMinutes : Nat
  dayZone : Bool

/-- The clock of a document. -/
def Clock.written : Clock := ⟨23, 23, 59, false⟩

/-- The clock inside a text. -/
def Clock.spelled : Clock := ⟨24, 99, 99, true⟩

def time (clock : Clock) : Scan String := do
  let hour ← field 2 0 clock.hours
  char ':'
  let minute ← field 2 0 59
  char ':'
  let second ← field 2 0 60
  let part ← option secondPart
  return padded 2 hour ++ ":" ++ padded 2 minute ++ ":" ++ padded 2 second ++ part.getD ""

/-- How far a clock is off, one day at most. -/
def zone (clock : Clock) : Scan String :=
  (do
    let _ ← satisfy fun c => c == 'Z' || c == 'z'
    return "Z") <|>
  (do
    let s ← satisfy fun c => c == '+' || c == '-'
    let hours ← field 2 0 clock.zoneHours
    char ':'
    let minutes ← field 2 0 clock.zoneMinutes
    let total := 60 * hours + minutes
    if 1440 < total then failure
    else
      return (if s == '-' && total != 0 then "-" else "+") ++ padded 2 (total / 60) ++ ":" ++
        padded 2 (total % 60))

/-- A day, a moment, or a time of any day. -/
def dateTime (clock : Clock) : Scan String :=
  (do
    let day ← date
    let moment ← option do
      let _ ← satisfy fun c => c == 'T' || c == 't' || c == ' '
      return "T" ++ (← time clock)
    let off ← if moment.isSome || clock.dayZone then option (zone clock) else pure none
    return day ++ moment.getD "" ++ off.getD "") <|> time clock

/-- Any single value but a date or time. -/
def scalar : Scan Value :=
  (do return .text (String.ofList (← text))) <|> (do return .float (← decimal)) <|>
    (do return .float (← special)) <|> whole <|>
    (do chars "true".toList; return .bool true) <|> (do chars "false".toList; return .bool false)

end LiveConfig.Toml
