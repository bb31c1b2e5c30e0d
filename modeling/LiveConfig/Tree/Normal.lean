import LiveConfig.Text.Case
import LiveConfig.Value

/-!
# Tree — Normal

Bringing all keys of a tree into lower case. Keys that differ only by case become one: tables under
them are combined, and otherwise the spelling that is last in the order of keys wins, which is a
collision. The collisions are returned in the order in which they happen.
-/

namespace LiveConfig

/-- The keys at which a value was replaced by another spelling of the key. -/
abbrev Collisions := List String

mutual

/-- Puts a value under a key that may be taken. -/
def Tree.absorb (t : Tree) (key : String) : Value → Tree × Collisions
  | .table incoming =>
    match t.find? key with
    | none => (t.insert key (.table incoming), [])
    | some (.table current) =>
      let (combined, hits) := Tree.absorbAll current incoming
      (t.insert key (.table combined), hits)
    | some _ => (t.insert key (.table incoming), [key])
  | v =>
    match t.find? key with
    | none => (t.insert key v, [])
    | some _ => (t.insert key v, [key])

/-- Absorbs entry after entry. -/
def Tree.absorbAll (t : Tree) : Tree → Tree × Collisions
  | [] => (t, [])
  | (key, v) :: rest =>
    let (t₁, hits₁) := Tree.absorb t key v
    let (t₂, hits₂) := Tree.absorbAll t₁ rest
    (t₂, hits₁ ++ hits₂)

end

mutual

/-- The value with all keys inside it in lower case. -/
def Value.normalize : Value → Value × Collisions
  | .table entries =>
    let (t, hits) := Tree.normalizeOnto [] entries
    (.table t, hits)
  | .list items =>
    let (vs, hits) := Value.normalizeList items
    (.list vs, hits)
  | v => (v, [])

def Value.normalizeList : List Value → List Value × Collisions
  | [] => ([], [])
  | v :: rest =>
    let (v', hits₁) := Value.normalize v
    let (rest', hits₂) := Value.normalizeList rest
    (v' :: rest', hits₁ ++ hits₂)

/-- Absorbs the normal forms of some entries into `acc`, one after the other. -/
def Tree.normalizeOnto (acc : Tree) : Tree → Tree × Collisions
  | [] => (acc, [])
  | (key, v) :: rest =>
    let (v', hits₁) := Value.normalize v
    let (acc', hits₂) := Tree.absorb acc (Text.lower key) v'
    let (out, hits₃) := Tree.normalizeOnto acc' rest
    (out, hits₁ ++ hits₂ ++ hits₃)

end

/-- The tree with all keys in lower case, and the collisions on the way. -/
def Tree.normalize (t : Tree) : Tree × Collisions := Tree.normalizeOnto [] t

/-- The tree with all keys in lower case. -/
def Tree.normal (t : Tree) : Tree := t.normalize.1

end LiveConfig
