import LiveConfig.Duration.Spans
import LiveConfig.Text.Split
import LiveConfig.Value.Decoder

/-!
# Reader

Typed read access. A reader answers keys with values; the getters read what it answers as the kind of
value that the caller wants, and give the zero of that kind when the key is absent or its value cannot
be read so.
-/

namespace LiveConfig

/-- Read access to configuration: what is under a key. -/
structure Reader where
  lookup : String → Option Value

namespace Value

/-- The items of a value that is wanted as a list: a text is cut at its commas and loses blanks and
empty pieces, and any other scalar is a list of one. -/
def items : Value → List Value
  | .list vs => vs
  | .text s =>
    ((Text.pieces ',' s.toList).map Text.trim).filterMap fun piece =>
      if piece.isEmpty then none else some (.text (String.ofList piece))
  | v => [v]

/-- A value as a duration. A text is a whole number of seconds or a row of spans, and a number counts
seconds. -/
def toDuration? : Value → Option Duration
  | .text s =>
    let cs := Text.trim s.toList
    match Numeral.unsigned64? cs with
    | some n => some (.ofSeconds n)
    | none => Duration.parse? (String.ofList cs)
  | .float x =>
    if !x.isNan && (!x.isNegative || x.isZero) then Duration.ofFloatSeconds? x
    else wholeSeconds? (.float x)
  | v => wholeSeconds? v
where
  wholeSeconds? (v : Value) : Option Duration :=
    (v.toInt64?.filter (0 ≤ ·)).map fun n => .ofSeconds n.toNat

end Value

namespace Reader

def isSet (r : Reader) (key : String) : Bool := (r.lookup key).isSome

def text (r : Reader) (key : String) : String := ((r.lookup key).bind Value.toText?).getD ""

/-- The text, or the default for an empty one. -/
def textOr (r : Reader) (key default : String) : String :=
  let s := r.text key
  if s.isEmpty then default else s

def bool (r : Reader) (key : String) : Bool := ((r.lookup key).bind Value.toBool?).getD false

/-- The default stands for an absent key only, not for a value that cannot be read. -/
def boolOr (r : Reader) (key : String) (default : Bool) : Bool :=
  match r.lookup key with
  | some v => v.toBool?.getD false
  | none => default

def int (r : Reader) (key : String) : Int := ((r.lookup key).bind Value.toInt64?).getD 0

/-- The default stands for an absent key only, not for a value that cannot be read. -/
def intOr (r : Reader) (key : String) (default : Int) : Int :=
  match r.lookup key with
  | some v => v.toInt64?.getD 0
  | none => default

/-- The whole number, or zero when 32 bits cannot hold it. -/
def int32 (r : Reader) (key : String) : Int :=
  let n := r.int key
  if -0x80000000 ≤ n ∧ n < 0x80000000 then n else 0

def float (r : Reader) (key : String) : Double :=
  ((r.lookup key).bind Value.toFloat?).getD (.zero false)

/-- The items that are texts; the others are left out. -/
def texts (r : Reader) (key : String) : List String :=
  match r.lookup key with
  | some v => v.items.filterMap Value.toText?
  | none => []

/-- The items that are whole numbers; the others are left out. -/
def ints (r : Reader) (key : String) : List Int :=
  match r.lookup key with
  | some v => v.items.filterMap Value.toInt64?
  | none => []

def duration (r : Reader) (key : String) : Duration :=
  ((r.lookup key).bind Value.toDuration?).getD .zero

/-- The value read by a decoder. -/
def decode {α : Type} (r : Reader) (key : String) (d : Decoder α) : Option α :=
  (r.lookup key).bind d

end Reader

end LiveConfig
