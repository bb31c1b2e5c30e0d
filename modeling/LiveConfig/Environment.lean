import LiveConfig.Kv.Pair
import LiveConfig.Text.Split
import LiveConfig.Text.Utf8
import LiveConfig.Tree.Place

/-!
# Environment

The variables of a process as a source of configuration. A name is brought into lower case, its start
is cut off where one is asked for, and the separator in it leads one table deeper. Values that spell a
truth value or a number are read as such. Variables that are not valid UTF-8 are left out.
-/

namespace LiveConfig

open Kv (Bytes)

/-- Which variables are read: those that begin with `start` and an underscore, or all; and what stands
between the segments of a name. -/
structure Environment where
  start : Option String
  separator : String

namespace Environment

def name (e : Environment) : String := "env:" ++ e.start.getD "" ++ "*"

/-- The text with every `old` in it, from left to right, replaced. -/
def replace (old new : List Char) : Nat → List Char → List Char
  | 0, cs => cs
  | _, [] => []
  | fuel + 1, c :: rest =>
    match Text.afterStart? old (c :: rest) with
    | some rest => new ++ replace old new fuel rest
    | none => c :: replace old new fuel rest

/-- The key of a variable, if it counts. -/
def key? (e : Environment) (name : String) : Option String := do
  let cs := (Text.lower name).toList
  let cs ←
    match e.start with
    | some start => Text.afterStart? (Text.lower (start ++ "_")).toList cs
    | none => some cs
  if e.separator.isEmpty then return String.ofList cs
  else return String.ofList (replace e.separator.toList ['.'] cs.length cs)

/-- The value of a variable. -/
def read (value : String) : Value :=
  let word := Text.lower value
  if word = "true" then .bool true
  else if word = "false" then .bool false
  else
    (((Numeral.int64? value.toList).bind (Value.int? .i64)).or
      ((Numeral.double? value.toList).map .float)).getD (.text value)

/-- The tree of some variables. -/
def load (e : Environment) (vars : List (Bytes × Bytes)) : Tree :=
  let entries := vars.filterMap fun v => do
    let key ← e.key? (String.ofList (← Text.Utf8.decode? v.1))
    return (key, read (String.ofList (← Text.Utf8.decode? v.2)))
  Tree.ofPlaces (Keyed.ofList entries)

end Environment

end LiveConfig
