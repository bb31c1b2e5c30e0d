import LiveConfig.Toml.Scalar

/-!
# Toml

TOML documents. Every key and every header adds to one growing set of tables, which knows how each
table came about, since that decides what may still be added: a table that was only passed through may
be opened once by a header, a table made by a dotted key only grows by dotted keys, and nothing is
defined twice.
-/

namespace LiveConfig.Toml

open Text (Scan)
open Text.Scan

/-- What a key stands for: a single value, a date or time, a list or table that is written as a value, a
table of its own with how it came about, or a list of such tables. A table is implied when a key or
header only led through it, and dotted when that was a key. -/
inductive Item where
  | single (v : Value)
  | moment (s : String)
  | list (items : List Item)
  | inline (entries : List (String × Item))
  | table (implied dotted : Bool) (entries : List (String × Item))
  | tables (all : List (List (String × Item)))

/-- The entries of one table, in the order in which they were defined. -/
abbrev Entries := List (String × Item)

/-! ### Growing tables -/

/-- The entries with an item under a key, in place of what was there or behind all others. -/
def put (key : String) (item : Item) : Entries → Entries
  | [] => [(key, item)]
  | (k, old) :: rest => if k = key then (key, item) :: rest else (k, old) :: put key item rest

/-- Changes the table at the end of a path, making tables on the way. The change is told whether the
table is a dotted one. A dotted path does not lead into tables that stand on their own. -/
def descend (dotted : Bool) (change : Bool → Entries → Option Entries) (here : Bool) (es : Entries) :
    List String → Option Entries
  | [] => change here es
  | key :: rest =>
    match Keyed.find? key es with
    | none => do
      let sub ← descend dotted change dotted [] rest
      return put key (.table true dotted sub) es
    | some (.table implied isDotted sub) =>
      if dotted && !implied then none
      else do
        let sub ← descend dotted change isDotted sub rest
        return put key (.table implied isDotted sub) es
    | some (.tables all) => do
      let last ← all.getLast?
      let last ← descend dotted change false last rest
      return put key (.tables (all.dropLast ++ [last])) es
    | some _ => none

/-- Defines a key in the table at the end of a dotted path. -/
def define (path : List String) (key : String) (item : Item) (here : Bool) (es : Entries) :
    Option Entries :=
  descend true (fun isDotted es =>
    if isDotted == path.isEmpty || Keyed.has key es then none
    else some (put key item es)) here es path

/-- Opens a table, which takes its place behind all entries that are there. -/
def openTable (path : List String) (key : String) (root : Entries) : Option Entries :=
  descend false (fun _ es =>
    match Keyed.find? key es with
    | none => some (put key (.table false false []) es)
    | some (.table true false sub) => some (Keyed.erase key es ++ [(key, .table false false sub)])
    | _ => none) false root path

/-- Opens one more table of a list. -/
def openListed (path : List String) (key : String) (root : Entries) : Option Entries :=
  descend false (fun _ es =>
    match Keyed.find? key es with
    | none => some (put key (.tables [[]]) es)
    | some (.tables all) => some (put key (.tables (all ++ [[]])) es)
    | _ => none) false root path

/-! ### Worth -/

/-- The key of a table that stands for a date or time, which it spells in a text. It has to be the
first key of the table, and then no other one counts. -/
def momentKey : String := "$__toml_private_datetime"

mutual

/-- What an item is worth, if it is worth something. -/
def Item.toValue? : Item → Option Value
  | .single v => some v
  | .moment s => some (.text s)
  | .list items => (itemValues? items).map .list
  | .inline es => tableValue? es
  | .table _ _ es => tableValue? es
  | .tables all => (tableValues? all).map .list

/-- What a table is worth. -/
def tableValue? : List (String × Item) → Option Value
  | [] => some (.table [])
  | (key, item) :: rest =>
    if key = momentKey then
      match item with
      | .single (.text s) => ((dateTime .spelled).run? s.toList).map .text
      | _ => none
    else do
      let v ← item.toValue?
      let es ← entryValues? rest
      return .table (Keyed.ofList ((key, v) :: es))

/-- What entries are worth. -/
def entryValues? : List (String × Item) → Option (List (String × Value))
  | [] => some []
  | (key, item) :: rest => do return (key, ← item.toValue?) :: (← entryValues? rest)

/-- What several items are worth. -/
def itemValues? : List Item → Option (List Value)
  | [] => some []
  | item :: rest => do return (← item.toValue?) :: (← itemValues? rest)

/-- What several tables are worth. -/
def tableValues? : List (List (String × Item)) → Option (List Value)
  | [] => some []
  | es :: rest => do return (← tableValue? es) :: (← tableValues? rest)

end

/-! ### Reading -/

/-- How deep lists and tables may be nested within a value, and how long a dotted key may be. -/
def depthLimit : Nat := 79

/-- A key without dots. -/
def simpleKey : Scan String := do
  return String.ofList (← basicText <|> literalText <|>
    while1 fun c => c.isAlphanum || c == '-' || c == '_')

/-- One part of a dotted key, with blanks around it. -/
def keyPart : Scan String := do
  space
  let key ← simpleKey
  space
  return key

/-- A dotted key: the path, and the key at its end. -/
def dottedKey : Scan (List String × String) := do
  let first ← keyPart
  let rest ← many (do char '.'; keyPart)
  if depthLimit ≤ rest.length then failure
  else return ((first :: rest).dropLast, rest.getLast?.getD first)

/-- A key with its value, where `value` reads that. -/
def pair (value : Scan Item) : Scan (List String × String × Item) := do
  let (path, key) ← dottedKey
  char '='
  space
  return (path, key, ← value)

/-- Several things with commas between them. -/
def separated {α : Type} (s : Scan α) : Scan (List α) := do
  match ← option s with
  | none => return []
  | some a => return a :: (← many (do char ','; s))

/-- A value in which lists and tables are nested no deeper than `left`. -/
def value (left : Nat) : Scan Item :=
  (do return .moment (← dateTime .written)) <|> (do return .single (← scalar)) <|>
    match left with
    | 0 => failure
    | left + 1 =>
      (do
        char '['
        let items ← separated (do gap; let item ← value left; gap; return item)
        let _ ← option (if items.isEmpty then failure else char ',')
        gap
        char ']'
        return .list items) <|>
      (do
        char '\x7b'
        let pairs ← separated (do let p ← pair (value left); space; return p)
        space
        char '\x7d'
        let es ← StateT.lift (pairs.foldlM (fun es p => define p.1 p.2.1 p.2.2 false es) [])
        return .inline es)

/-- The document so far: all entries, and the path of the table that is open. -/
structure Draft where
  root : Entries
  current : List String

/-- One line of a document, or several where its value goes over them. -/
def line (d : Draft) : Scan Draft := do
  match ← peek? with
  | some '#' => do
    comment
    newline <|> done
    return d
  | some '\n' | some '\r' => do
    newline
    return d
  | some '[' =>
    (do
      chars ['[', '[']
      let (path, key) ← dottedKey
      chars [']', ']']
      lineEnd
      return ⟨← StateT.lift (openListed path key d.root), path ++ [key]⟩) <|>
    (do
      char '['
      let (path, key) ← dottedKey
      char ']'
      lineEnd
      return ⟨← StateT.lift (openTable path key d.root), path ++ [key]⟩)
  | _ => do
    let (path, key, item) ← pair (value depthLimit)
    lineEnd
    let root ← StateT.lift
      (descend false (fun _ es => define path key item false es) false d.root d.current)
    return { d with root := root }

/-- All lines, with fuel for one character each. -/
def lines (d : Draft) : Nat → Scan Draft
  | 0 => do done; return d
  | fuel + 1 => do
    space
    if (← get).isEmpty then return d
    else
      let d ← line d
      lines d fuel

/-- The tree that a document spells. A mark of the byte order in front is skipped. -/
def parse? (text : List Char) : Option Tree := do
  let text := match text with
    | '\uFEFF' :: rest => rest
    | _ => text
  let d ← Text.Scan.run? (lines ⟨[], []⟩ (text.length + 1)) text
  match ← tableValue? d.root with
  | .table t => some t
  | _ => none

end LiveConfig.Toml
