import LiveConfig.Duration
import LiveConfig.Number.Numeral
import LiveConfig.Text.Classes

/-!
# Duration — Spans

Reading a duration from text such as `1h 30m` or `2.5s`: a row of spans, each a number with a unit.
Blanks may stand within a number, before a unit and between spans, and a digit right after a unit
begins the next span. Nothing is rounded: a fraction that is no whole number of the unit's smallest
steps is refused, and so is everything that 64 bits cannot hold.
-/

namespace LiveConfig.Duration

/-- One of something, as so many nanoseconds or so many seconds. -/
inductive Scale where
  | nanos (factor : Nat)
  | seconds (factor : Nat)

/-- A unit: how its whole numbers count, and how the part behind a point counts, if it may have one. -/
structure TimeUnit where
  whole : Scale
  part : Option Scale

/-- The units by name. Case matters: `m` is a minute and `M` a month. -/
def TimeUnit.named? (name : String) : Option TimeUnit :=
  if name ∈ ["nanos", "nsec", "ns"] then some ⟨.nanos 1, none⟩
  else if name ∈ ["usec", "us", "µs"] then some ⟨.nanos 1000, some (.nanos 1000)⟩
  else if name ∈ ["millis", "msec", "ms"] then some ⟨.nanos 1000000, some (.nanos 1000000)⟩
  else if name ∈ ["seconds", "second", "secs", "sec", "s"] then
    some ⟨.seconds 1, some (.nanos 1000000000)⟩
  else if name ∈ ["minutes", "minute", "mins", "min", "m"] then
    some ⟨.seconds 60, some (.nanos 60000000000)⟩
  else if name ∈ ["hours", "hour", "hrs", "hr", "h"] then long 3600
  else if name ∈ ["days", "day", "d"] then long 86400
  else if name ∈ ["weeks", "week", "wks", "wk", "w"] then long 604800
  else if name ∈ ["months", "month", "M"] then long 2630016
  else if name ∈ ["years", "year", "yrs", "yr", "y"] then long 31557600
  else none
where
  long (seconds : Nat) : Option TimeUnit := some ⟨.seconds seconds, some (.seconds seconds)⟩

/-- A number that 64 bits hold. -/
def fit? (n : Nat) : Option Nat := if n < 0x10000000000000000 then some n else none

/-- The sum with some more seconds and nanoseconds. -/
def extend? (total : Duration) (seconds nanos : Nat) : Option Duration := do
  let below ← fit? (total.subsecond + nanos)
  let whole ← fit? (total.seconds + seconds + below / nanosPerSecond)
  return ⟨whole * nanosPerSecond + below % nanosPerSecond⟩

/-- The sum with `num / den` of the scale, which has to be whole. -/
def addScaled? (total : Duration) (num den : Nat) : Scale → Option Duration
  | .nanos factor => do
    let n ← fit? (num * factor)
    if n % den = 0 then total.extend? 0 (n / den) else none
  | .seconds factor => do
    let n ← fit? (num * factor)
    if n % den = 0 then total.extend? (n / den) 0 else none

/-- The part after the point: its digits as a number, over a power of ten. -/
structure Fraction where
  num : Nat
  den : Nat

/-- The sum with one more span. -/
def addSpan? (total : Duration) (n : Nat) (fraction : Option Fraction) (name : String) :
    Option Duration := do
  let unit ← TimeUnit.named? name
  let total ← total.addScaled? n 1 unit.whole
  match fraction with
  | none => return total
  | some f =>
    let part ← unit.part
    total.addScaled? f.num f.den part

/-- Where the reader of spans stands: before the first span, between spans, within the digits of a
number, behind its point, or within a unit (the letters so far, last first). -/
inductive Spans where
  | opening
  | between (total : Duration)
  | digits (total : Duration) (n : Nat)
  | decimals (total : Duration) (n : Nat) (f : Fraction)
  | unit (total : Duration) (n : Nat) (f : Option Fraction) (letters : List Char)

/-- A character of which unit names are made. -/
def isUnitLetter (c : Char) : Bool := c.isAlpha || c == 'µ'

namespace Spans

/-- The next character. -/
def step? (c : Char) : Spans → Option Spans
  | .opening => start .zero .opening
  | .between total => start total (.between total)
  | .digits total n =>
    if c.isDigit then (fit? (10 * n + Numeral.digitValue c)).map (.digits total)
    else if Text.isBlank c then some (.digits total n)
    else if isUnitLetter c then some (.unit total n none [c])
    else if c = '.' then some (.decimals total n ⟨0, 1⟩)
    else none
  | .decimals total n f =>
    if c.isDigit then do
      let num ← fit? (10 * f.num + Numeral.digitValue c)
      let den ← fit? (10 * f.den)
      return .decimals total n ⟨num, den⟩
    else if Text.isBlank c then some (.decimals total n f)
    else if isUnitLetter c && f.den != 1 then some (.unit total n (some f) [c])
    else none
  | .unit total n f letters =>
    if c.isDigit then do
      let total ← addSpan? total n f (String.ofList letters.reverse)
      return .digits total (Numeral.digitValue c)
    else if Text.isBlank c then do
      let total ← addSpan? total n f (String.ofList letters.reverse)
      return .between total
    else if isUnitLetter c then some (.unit total n f (c :: letters))
    else none
where
  start (total : Duration) (same : Spans) : Option Spans :=
    if c.isDigit then some (.digits total (Numeral.digitValue c))
    else if Text.isBlank c then some same
    else none

/-- The end of the text. -/
def finish? : Spans → Option Duration
  | .between total => some total
  | .unit total n f letters => addSpan? total n f (String.ofList letters.reverse)
  | _ => none

/-- Reads on to the end of the text. -/
def run? (s : Spans) : List Char → Option Duration
  | [] => s.finish?
  | c :: rest =>
    match s.step? c with
    | some next => run? next rest
    | none => none

end Spans

/-- The duration that a text spells. A lone zero needs no unit. -/
def parse? (text : String) : Option Duration :=
  if text = "0" then some .zero else Spans.run? .opening text.toList

end LiveConfig.Duration
