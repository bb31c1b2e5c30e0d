import LiveConfig.Number.Numeral
import LiveConfig.Text.Escape
import LiveConfig.Value
import LiveConfig.Yaml.Token

/-!
# Yaml — Node

What the nodes of a document are worth. A plain scalar may spell nil, a truth value or a number, and a
tag may insist on one of them; any other scalar is a text. Only texts and whole numbers can be keys.
-/

namespace LiveConfig.Yaml

/-- A node: texts and whole numbers, which can be keys, other values, what a tag makes invalid, which
counts as nil, but not as a key, and what is worth nothing at all. -/
inductive Node where
  | text (s : String)
  | whole (n : Int) (fits : Width.i64.Holds n)
  | value (v : Value)
  | invalid
  | worthless

namespace Node

/-- What a node is worth, if it is worth something. -/
def toValue? : Node → Option Value
  | .text s => some (.text s)
  | .whole n fits => some (.int .i64 n fits)
  | .value v => some v
  | .invalid => some .nil
  | .worthless => none

/-- The kind and text of a node that can be a key. -/
def key? : Node → Option (Bool × String)
  | .text s => some (true, s)
  | .whole n _ => some (false, toString n)
  | _ => none

def isInvalid : Node → Bool
  | .invalid => true
  | _ => false

/-! ### Scalars -/

def ofInt (n : Int) : Option Node := if h : Width.i64.Holds n then some (.whole n h) else none

/-- A whole number to a base, with an optional sign. -/
def based? (base : Nat) (cs : List Char) : Option Node :=
  let digits := match cs with
    | '-' :: rest | '+' :: rest => rest
    | _ => cs
  if digits.isEmpty || !digits.all (fun c => Text.isHex c && Text.hexValue c < base) then none
  else
    let n : Int := digits.foldl (fun n c => base * n + Text.hexValue c) 0
    ofInt (if cs.head? == some '-' then -n else n)

/-- A whole number in tens, with an optional sign. -/
def whole? (cs : List Char) : Option Node := (Numeral.int64? cs).bind ofInt

/-- An infinity, or no number, in the spelling of YAML. -/
def isSpecial (s : String) : Bool :=
  [".inf", ".Inf", ".INF", "+.inf", "+.Inf", "+.INF", "-.inf", "-.Inf", "-.INF", ".nan",
    ".NAN"].contains s

/-- A decimal. A special one is worth nothing. -/
def decimal? (s : String) : Option Node :=
  if isSpecial s then some .worthless
  else (Numeral.double? s.toList).map fun x => .value (.float x)

/-- A whole number behind the mark of its base or a plus sign. -/
def marked? : List Char → Option Node
  | '0' :: 'x' :: rest => based? 16 rest
  | '0' :: 'o' :: rest => based? 8 rest
  | '+' :: rest => whole? rest
  | _ => none

/-- What a plain scalar without a tag is. -/
def ofPlain (s : String) : Node :=
  match marked? s.toList with
  | some n => n
  | none =>
    if s = "~" ∨ s = "null" then .value .nil
    else if s = "true" then .value (.bool true)
    else if s = "false" then .value (.bool false)
    else ((whole? s.toList).or (decimal? s)).getD (.text s)

/-- The start of the tags that YAML itself declares. -/
def coreTags : String := "tag:yaml.org,2002:"

/-- What a plain scalar with a tag is. A float is a decimal even where it looks like a whole number. -/
def ofTagged (handle suffix s : String) : Node :=
  if handle ≠ coreTags then .text s
  else if suffix = "bool" then
    if s = "true" then .value (.bool true) else if s = "false" then .value (.bool false) else .invalid
  else if suffix = "int" then (whole? s.toList).getD .invalid
  else if suffix = "float" then (decimal? s).getD .invalid
  else if suffix = "null" then if s = "~" ∨ s = "null" then .value .nil else .invalid
  else .text s

/-- What a scalar is, with its tag. -/
def ofScalar (plain : Bool) (tag : Option (String × String)) (s : String) : Node :=
  match plain, tag with
  | false, _ => .text s
  | true, some (handle, suffix) => ofTagged handle suffix s
  | true, none => ofPlain s

/-! ### Collections -/

/-- A sequence, which is worth something if all its items are. -/
def ofList (items : List Node) : Node :=
  ((items.mapM toValue?).map fun vs => .value (.list vs)).getD .worthless

/-- Keys with their values, from all nodes of a mapping in order. What is invalid is no key; the node
behind it is taken for one. A key without a value is left out. -/
def pairs : List Node → List (Node × Node)
  | k :: v :: rest => if k.isInvalid then pairs (v :: rest) else (k, v) :: pairs rest
  | _ => []

/-- An entry, when its key can be one and its value is worth something. -/
def entry? (p : Node × Node) : Option (String × Value) := do
  return ((← p.1.key?).2, ← p.2.toValue?)

/-- A mapping, when each of its keys occurs once. It is worth something if all its entries are. -/
def ofPairs? (nodes : List Node) : Option Node :=
  let all := pairs nodes
  if (all.filterMap (·.1.key?)).Nodup then
    some (((all.mapM entry?).map fun es => .value (.table (Keyed.ofList es))).getD .worthless)
  else none

end Node

end LiveConfig.Yaml
