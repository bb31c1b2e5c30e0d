import LiveConfig.Value.Coerce

/-!
# Value — Decoder

Reading a value as structured data. A decoder is a partial function on values; scalars are coerced,
lists give sequences and tuples, tables give maps and records, and texts or tables with one entry give
the variants of an alternative. What a reader does not ask for is ignored.
-/

namespace LiveConfig

/-- A way to read a value as an `α`, where that is possible. -/
abbrev Decoder (α : Type) := Value → Option α

namespace Decoder

variable {α β : Type}

def text : Decoder String := Value.toText?

def bool : Decoder Bool := Value.toBool?

def float : Decoder Double := Value.toFloat?

/-- A whole number with sign that lies between `lo` and `hi`. -/
def int (lo hi : Int) : Decoder Int := fun v =>
  v.toInt64?.filter fun n => lo ≤ n ∧ n ≤ hi

/-- A whole number of 64 bits with sign. -/
def int64 : Decoder Int := Value.toInt64?

/-- A whole number without sign up to `hi`. -/
def unsigned (hi : Int) : Decoder Int := fun v => v.toUnsigned64?.filter (· ≤ hi)

/-- Nil is nothing, and everything else something. -/
def option (d : Decoder α) : Decoder (Option α)
  | .nil => some none
  | v => (d v).map some

/-- A list of any length. -/
def list (d : Decoder α) : Decoder (List α)
  | .list items => items.mapM d
  | _ => none

/-- A list of at least two items. -/
def pair (d : Decoder α) (e : Decoder β) : Decoder (α × β)
  | .list (a :: b :: _) => do return (← d a, ← e b)
  | _ => none

/-- A table whose values are all read alike. -/
def entries (d : Decoder α) : Decoder (List (String × α))
  | .table t => t.mapM fun e => (d e.2).map (e.1, ·)
  | _ => none

mutual

/-- A value kept as it is, except that whole numbers without sign become ones with sign. -/
def kept : Value → Option Value
  | .int .u64 n _ => Value.int? .i64 n
  | .int .u128 n _ => Value.int? .i128 n
  | .list items => (keptList items).map .list
  | .table t => (keptTree t).map .table
  | v => some v

def keptList : List Value → Option (List Value)
  | [] => some []
  | v :: rest => do return (← kept v) :: (← keptList rest)

def keptTree : List (String × Value) → Option (List (String × Value))
  | [] => some []
  | (key, v) :: rest => do return (key, ← kept v) :: (← keptTree rest)

end

/-- A whole tree. -/
def tree : Decoder Tree
  | .table t => keptTree t
  | _ => none

/-! ### Records -/

/-- The fields of a record: under their names in a table, or in order in a list. -/
inductive Fields where
  | named (t : Tree)
  | placed (items : List Value)

/-- A record is read from a table or from a list. -/
def fields : Decoder Fields
  | .table t => some (.named t)
  | .list items => some (.placed items)
  | _ => none

/-- A record that is read from a table only. -/
def namedFields : Decoder Fields
  | .table t => some (.named t)
  | _ => none

namespace Fields

/-- The value of a field, by its place and its name. -/
def get? (f : Fields) (place : Nat) (name : String) : Option Value :=
  match f with
  | .named t => t.find? name
  | .placed items => items[place]?

/-- A field that must be there. -/
def required (f : Fields) (place : Nat) (name : String) (d : Decoder α) : Option α :=
  (f.get? place name).bind d

/-- A field that stands for its default when it is missing. -/
def defaulted (f : Fields) (place : Nat) (name : String) (d : Decoder α) (default : α) : Option α :=
  match f.get? place name with
  | some v => d v
  | none => some default

/-- A field that may be missing from a table, though not from a list. -/
def optional (f : Fields) (place : Nat) (name : String) (d : Decoder α) : Option (Option α) :=
  match f with
  | .named _ => f.defaulted place name (Decoder.option d) none
  | .placed _ => f.required place name (Decoder.option d)

end Fields

/-! ### Alternatives -/

/-- Reads the variant that a value names, in any case; a table with one entry adds a content to the
name. -/
def choose (variants : List (String × (Option Value → Option α))) : Decoder α := fun v => do
  let (name, content) ←
    match v with
    | .text s => some (s, none)
    | .table [(key, content)] => some (key, some content)
    | _ => none
  let variant ← variants.find? fun e => Text.lower e.1 = Text.lower name
  variant.2 content

/-- A variant without content; a content that is there is ignored. -/
def plain (a : α) : Option Value → Option α := fun _ => some a

/-- A variant that needs a content. -/
def holding (d : Decoder α) : Option Value → Option α := fun content => content.bind d

end Decoder

end LiveConfig
