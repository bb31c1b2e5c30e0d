import LiveConfig.Error
import LiveConfig.Kv.Pair
import LiveConfig.Text.Split
import LiveConfig.Text.Utf8
import LiveConfig.Value.Coerce

/-!
# Kv — Path

Between flat keys and trees. Stored keys are paths `root/segment/…/segment` and their octets are
texts. Folding makes a tree of pairs, flattening makes pairs of a tree. Where folding meets a path that
is needed both as a value and as a table, the earlier pair stays and the later one is dropped.
-/

namespace LiveConfig.Kv

/-- What stands between the segments of a path. -/
def separator : Char := '/'

/-- A root path without separators at its end. -/
def trimRoot (root : String) : String :=
  String.ofList (Text.dropEndWhile separator root.toList)

/-- A pair that was not folded in: its path below the root, and the segment at which it failed. -/
structure Dropped where
  path : String
  segment : String
deriving DecidableEq

/-! ### Folding -/

/-- Puts a value at the end of a path, making tables on the way; fails with the segment at which
something stands in the way. -/
def graft (t : Tree) (v : Value) : List String → Except String Tree
  | [] => .ok t
  | [leaf] => if t.has leaf then .error leaf else .ok (t.insert leaf v)
  | segment :: rest =>
    match t.find? segment with
    | none => (graft [] v rest).map fun c => t.insert segment (.table c)
    | some (.table children) => (graft children v rest).map fun c => t.insert segment (.table c)
    | some _ => .error segment

/-- The path of a key below the root; a key that is not below it is taken whole. -/
def below (root key : String) : List Char :=
  (Text.afterStart? (root.toList ++ [separator]) key.toList).getD key.toList

/-- The root itself and the markers of folders carry no value. -/
def isMarker (root key : String) : Bool :=
  let path := below root key
  path.isEmpty || path.getLast? == some separator || key == root

/-- Folds one pair into a tree. -/
def foldPair (root : String) (p : Pair) (t : Tree) : Tree × List Dropped :=
  if isMarker root p.key then (t, [])
  else
    let path := below root p.key
    let v := Value.text (String.ofList (Text.Utf8.decodeLossy p.value))
    match graft t v ((Text.pieces separator path).map String.ofList) with
    | .ok t' => (t', [])
    | .error segment => (t, [⟨String.ofList path, segment⟩])

/-- Folds pair after pair into a tree. -/
def foldOnto (root : String) (t : Tree) : List Pair → Tree × List Dropped
  | [] => (t, [])
  | p :: rest =>
    let (t₁, drops₁) := foldPair root p t
    let (t₂, drops₂) := foldOnto root t₁ rest
    (t₂, drops₁ ++ drops₂)

/-- The tree of some pairs, and the pairs that were dropped, in order. -/
def fold (root : String) (pairs : List Pair) : Tree × List Dropped :=
  foldOnto (trimRoot root) [] pairs

/-! ### Flattening -/

/-- The text of one scalar; nil is the empty text. -/
def scalarText : Value → String
  | .nil => ""
  | v => v.toText?.getD ""

/-- The text of a leaf: a list is its scalars with commas between them. -/
def leafText : Value → Except Error String
  | .list items => (items.mapM itemText).map (",".intercalate ·)
  | .table _ => .error (.encode "a table is not a scalar value")
  | v => .ok (scalarText v)
where
  itemText : Value → Except Error String
    | .list _ | .table _ =>
      .error (.encode "nested collections inside a list are not supported")
    | v => .ok (scalarText v)

/-- The octets of a leaf. -/
def encode (v : Value) : Except Error Bytes :=
  (leafText v).map fun s => Text.Utf8.encode s.toList

/-- A failure to encode, told with the path of the leaf. -/
def atPath (path : String) (e : Error) : Error :=
  .encode ("key '" ++ path ++ "': " ++ e.message)

mutual

/-- Adds the leaves of a value at `path` to `out`. -/
def flattenValue (path : String) (out : Keyed Bytes) : Value → Except Error (Keyed Bytes)
  | .table children => flattenOnto path out children
  | v =>
    match encode v with
    | .ok bytes => .ok (out.insert path bytes)
    | .error e => .error (atPath path e)

/-- Adds the leaves of a tree at `parent` to `out`. -/
def flattenOnto (parent : String) (out : Keyed Bytes) : Tree → Except Error (Keyed Bytes)
  | [] => .ok out
  | (key, v) :: rest =>
    match flattenValue (parent ++ separator.toString ++ key) out v with
    | .ok out' => flattenOnto parent out' rest
    | .error e => .error e

end

/-- The full keys and octets of a tree's leaves, in ascending order of the keys. -/
def flatten (root : String) (t : Tree) : Except Error (Keyed Bytes) :=
  flattenOnto (trimRoot root) [] t

end LiveConfig.Kv
