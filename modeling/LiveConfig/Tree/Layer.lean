import LiveConfig.Text.Case
import LiveConfig.Text.Split
import LiveConfig.Value

/-!
# Tree — Layer

Trees as layers. Laying one tree over another merges the tables that both hold; everywhere else what
the upper tree holds replaces what was there. A tree is read by a dotted key, which is lower-cased:
every dot leads one table deeper, and a value that is nil counts as absent.
-/

namespace LiveConfig

mutual

/-- The value that stands where `old` was once the given value is laid over it. -/
def Value.over (old : Option Value) : Value → Value
  | .table upper =>
    match old with
    | some (.table lower) => .table (Tree.merge lower upper)
    | _ => .table upper
  | v => v

/-- The first tree with the second one laid over it. -/
def Tree.merge (lower : Tree) : Tree → Tree
  | [] => lower
  | (key, v) :: rest => Tree.merge (lower.insert key (Value.over (lower.find? key) v)) rest

end

namespace Tree

/-- The segments of a dotted key, lower-cased. -/
def segments (key : String) : List String := Text.split '.' (Text.lower key)

/-- What the tree holds under a dotted key. -/
def lookup (t : Tree) (key : String) : Option Value :=
  (t.at? (segments key)).filter (!·.isNil)

end Tree

end LiveConfig
