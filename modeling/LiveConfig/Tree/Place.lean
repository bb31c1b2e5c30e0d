import LiveConfig.Number.Numeral
import LiveConfig.Text.Case
import LiveConfig.Value

/-!
# Tree — Place

Keys that name a place inside a tree, such as `db.hosts[0].name`. A key that is well formed leads
through tables and lists, which are made where they are missing; any other key stands for itself. All
keys on the way are brought into lower case, and so are those inside a value that is put there, except
for tables inside lists.
-/

namespace LiveConfig

/-- One step further into a value. -/
inductive Step where
  | child (key : String)
  | item (index : Int)

/-- A place in a tree: a key of the tree itself, and the steps from there. -/
structure Place where
  key : String
  steps : List Step

namespace Place

/-! ### Reading -/

/-- A character of a name. -/
def isNameChar (c : Char) : Bool := c.isAlphanum || c == ' ' || c == '_' || c == '-'

/-- The name in front, which must not be empty, and what follows it. -/
def name? (cs : List Char) : Option (String × List Char) :=
  let name := cs.takeWhile isNameChar
  if name.isEmpty then none else some (String.ofList name, cs.dropWhile isNameChar)

/-- The text without the blanks in front. -/
def skipBlanks (cs : List Char) : List Char := cs.dropWhile fun c => c == ' ' || c == '\t'

/-- The index in front, with its closing bracket, and what follows it. -/
def index? (cs : List Char) : Option (Int × List Char) :=
  let cs := skipBlanks cs
  let (sign, cs) :=
    match cs with
    | '-' :: rest => (['-'], rest)
    | _ => ([], cs)
  match skipBlanks (cs.dropWhile Char.isDigit) with
  | ']' :: rest => (Numeral.int64? (sign ++ cs.takeWhile Char.isDigit)).map (·, rest)
  | _ => none

/-- The steps that the rest of a key spells, with fuel for one character each. -/
def steps? : Nat → List Char → Option (List Step)
  | _, [] => some []
  | 0, _ :: _ => none
  | fuel + 1, c :: rest =>
    if c = '.' then do
      let (name, rest) ← name? rest
      return .child name :: (← steps? fuel rest)
    else if c = '[' then do
      let (i, rest) ← index? rest
      return .item i :: (← steps? fuel rest)
    else none

/-- The place that a key names. -/
def ofKey (key : String) : Place :=
  let named := do
    let (name, rest) ← name? key.toList
    return Place.mk name (← steps? rest.length rest)
  named.getD ⟨key, []⟩

end Place

/-! ### Putting values into places -/

/-- The entries of a value that is a table. -/
def Value.asTable : Option Value → Tree
  | some (.table t) => t
  | _ => []

/-- The items of a value that is a list. -/
def Value.asList : Option Value → List Value
  | some (.list items) => items
  | _ => []

mutual

/-- What stands where `old` was once a value is put there: the entries of a table are put into it one
by one, and a table without entries leaves what is there. -/
def Value.into (old : Option Value) : Value → Value
  | .table [] => old.getD (.table [])
  | .table (e :: rest) => .table (Tree.putAll (Value.asTable old) (e :: rest))
  | v => v

/-- Puts entry after entry. -/
def Tree.putAll (t : Tree) : List (String × Value) → Tree
  | [] => t
  | (key, v) :: rest =>
    Tree.putAll (t.insert (Text.lower key) (Value.into (t.find? (Text.lower key)) v)) rest

end

/-- Puts a value under a key. -/
def Tree.put (t : Tree) (key : String) (v : Value) : Tree :=
  t.insert (Text.lower key) (Value.into (t.find? (Text.lower key)) v)

/-- The list with an item changed. A negative index counts from the end. Where the list is too short it
grows by nil, towards its front for a negative index. -/
def withItem (items : List Value) (index : Int) (f : Option Value → Value) : List Value :=
  let n := index.natAbs
  if 0 ≤ index then
    (items ++ List.replicate (n + 1 - items.length) Value.nil).set n (f items[n]?)
  else
    let items := List.replicate (n - items.length) Value.nil ++ items
    items.set (items.length - n) (f items[items.length - n]?)

/-- What stands where `old` was once a value is put at the end of some steps from there. -/
def Value.place (old : Option Value) (v : Value) : List Step → Value
  | [] => v
  | [.child key] => .table ((Value.asTable old).put key v)
  | .child key :: rest =>
    let t := Value.asTable old
    .table (t.insert (Text.lower key) (Value.place (t.find? (Text.lower key)) v rest))
  | .item i :: rest =>
    .list (withItem (Value.asList old) i fun old => Value.place old v rest)

/-- Puts a value into the place that a key names. -/
def Tree.place (t : Tree) (key : String) (v : Value) : Tree :=
  let p := Place.ofKey key
  match p.steps with
  | [] => t.put p.key v
  | steps => t.insert (Text.lower p.key) (Value.place (t.find? (Text.lower p.key)) v steps)

/-- The tree of values by the names of their places. -/
def Tree.ofPlaces (entries : List (String × Value)) : Tree :=
  entries.foldl (fun t e => t.place e.1 e.2) []

end LiveConfig
