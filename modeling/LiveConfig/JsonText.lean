import LiveConfig.JsonText.Token
import LiveConfig.Text.Utf8
import LiveConfig.Value

/-!
# JsonText

JSON documents as they are written: numbers and texts are kept as spelled, and the members of an object
in order, repeated names included. What a document means is asked of its parts: `JsonText.text?` and
`Numeral.number?` refuse texts and numbers that have no meaning, and nobody is asked about a part that
is ignored.
-/

namespace LiveConfig

/-- A JSON document. -/
inductive JsonText where
  | null
  | bool (b : Bool)
  | number (n : JsonText.Numeral)
  | text (pieces : List JsonText.Piece)
  | list (items : List JsonText)
  | object (members : List (List JsonText.Piece × JsonText))

namespace JsonText

/-! ### Reading -/

/-- A list or object that has begun, its parts so far in reverse. -/
inductive Frame where
  | list (items : List JsonText)
  | object (members : List (List Piece × JsonText)) (name : List Piece)

/-- What may come next: a value, or the end of the list that has just begun; a name, or the end of the
object that has just begun; the colon behind a name; what separates or ends; or nothing more. -/
inductive Expect where
  | value (orClose : Bool)
  | name (orClose : Bool)
  | colon
  | next
  | nothing (result : JsonText)

/-- The reader: what it expects, and what has begun, the innermost first. -/
structure Assembly where
  expect : Expect
  frames : List Frame

namespace Assembly

def start : Assembly := ⟨.value false, []⟩

/-- A value is complete. -/
def complete (v : JsonText) : List Frame → Assembly
  | [] => ⟨.nothing v, []⟩
  | .list items :: rest => ⟨.next, .list (v :: items) :: rest⟩
  | .object members name :: rest => ⟨.next, .object ((name, v) :: members) [] :: rest⟩

/-- The next token. -/
def step? (a : Assembly) (t : Token) : Option Assembly :=
  match a.expect, t, a.frames with
  | .value _, .null, frames => some (complete .null frames)
  | .value _, .bool b, frames => some (complete (.bool b) frames)
  | .value _, .number n, frames => some (complete (.number n) frames)
  | .value _, .text ps, frames => some (complete (.text ps) frames)
  | .value _, .listOpen, frames => some ⟨.value true, .list [] :: frames⟩
  | .value _, .objectOpen, frames => some ⟨.name true, .object [] [] :: frames⟩
  | .value true, .listClose, .list items :: rest => some (complete (.list items.reverse) rest)
  | .name _, .text ps, .object members _ :: rest => some ⟨.colon, .object members ps :: rest⟩
  | .name true, .objectClose, .object members _ :: rest =>
    some (complete (.object members.reverse) rest)
  | .colon, .colon, frames => some ⟨.value false, frames⟩
  | .next, .comma, .list items :: rest => some ⟨.value false, .list items :: rest⟩
  | .next, .comma, .object members name :: rest => some ⟨.name false, .object members name :: rest⟩
  | .next, .listClose, .list items :: rest => some (complete (.list items.reverse) rest)
  | .next, .objectClose, .object members _ :: rest =>
    some (complete (.object members.reverse) rest)
  | _, _, _ => none

/-- The document, when nothing is missing. -/
def result? (a : Assembly) : Option JsonText :=
  match a.expect with
  | .nothing v => some v
  | _ => none

end Assembly

/-- The document that the octets spell. -/
def parse? (bytes : List UInt8) : Option JsonText := do
  let tokens ← Token.scan? bytes
  let a ← tokens.foldlM Assembly.step? Assembly.start
  a.result?

/-! ### Meaning -/

/-- The octets of a text; surrogates have to come in pairs. -/
def octets? : List Piece → Option (List UInt8)
  | [] => some []
  | .octet b :: rest => (octets? rest).map (b :: ·)
  | .unit n :: rest =>
    if 0xD800 ≤ n ∧ n < 0xDC00 then
      match rest with
      | .unit m :: rest =>
        if 0xDC00 ≤ m ∧ m < 0xE000 then
          (octets? rest).map
            (Text.Utf8.encodeChar (Char.ofNat (0x10000 + 0x400 * (n - 0xD800) + (m - 0xDC00))) ++ ·)
        else none
      | _ => none
    else if 0xDC00 ≤ n ∧ n < 0xE000 then none
    else (octets? rest).map (Text.Utf8.encodeChar (Char.ofNat n) ++ ·)

/-- The text that some pieces make, when they make one. -/
def string? (pieces : List Piece) : Option String :=
  ((octets? pieces).bind Text.Utf8.decode?).map String.ofList

/-- The text of a document that is one. -/
def text? : JsonText → Option String
  | .text pieces => string? pieces
  | _ => none

/-- How deep lists and objects may be nested where all of a document is wanted. -/
def depthLimit : Nat := 127

mutual

/-- The document as a configuration value, where `number` makes values of numbers and lists and objects
are nested no deeper than `left`. Of members with one name the last counts. -/
def value? (number : Number → Value) (left : Nat) : JsonText → Option Value
  | .null => some .nil
  | .bool b => some (.bool b)
  | .number n => n.number?.map number
  | .text pieces => (string? pieces).map .text
  | .list items =>
    match left with
    | 0 => none
    | left + 1 => (values? number left items).map .list
  | .object members =>
    match left with
    | 0 => none
    | left + 1 => (members? number left members).map fun l => .table (Keyed.ofList l)

def values? (number : Number → Value) (left : Nat) : List JsonText → Option (List Value)
  | [] => some []
  | j :: rest => do return (← value? number left j) :: (← values? number left rest)

def members? (number : Number → Value) (left : Nat) :
    List (List Piece × JsonText) → Option (List (String × Value))
  | [] => some []
  | (name, j) :: rest => do
    return (← string? name, ← value? number left j) :: (← members? number left rest)

end

/-- The document as a tree, when it is an object. -/
def tree? (number : Number → Value) (left : Nat) (j : JsonText) : Option Tree :=
  match value? number left j with
  | some (.table t) => some t
  | _ => none

/-- A number with sign where 64 bits hold it, and a double elsewhere. -/
def signed : Number → Value
  | .whole n => (Value.int? .i64 n).getD (.float (.ofInt n))
  | .float x => .float x

/-- A number with sign where 64 bits hold it, without sign where that fits, and a double elsewhere. -/
def widest : Number → Value
  | .whole n => ((Value.int? .i64 n).or (Value.int? .u64 n)).getD (.float (.ofInt n))
  | .float x => .float x

end JsonText

end LiveConfig
