import LiveConfig.Yaml.Node
import LiveConfig.Yaml.Stream

/-!
# Yaml

YAML documents. The tokens of a text already show how everything is nested, so the nodes are read off
them in order. An alias stands for the node with its anchor; while that node is still open, it is worth
nil.
-/

namespace LiveConfig.Yaml

/-- The reader of nodes: the tokens that are left, the declared handles, and the anchors with the nodes
they stand for. -/
structure Reading where
  rest : List Token
  handles : List (String × String)
  anchors : List (String × Nat)
  nodes : List (Nat × Node)

/-- A step of the reader, which may fail. -/
abbrev Read (α : Type) := StateT Reading Option α

namespace Read

/-- The next token. -/
def peek : Read (Option Token) := do return (← get).rest.head?

def skip : Read Unit := modify fun r => { r with rest := r.rest.drop 1 }

/-- The number of a new anchor. -/
def anchor (name : String) : Read Nat := do
  let r ← get
  let number := r.anchors.length
  set { r with anchors := (name, number) :: r.anchors }
  return number

/-- The node that an alias stands for. -/
def referent (name : String) : Read Node := do
  let r ← get
  let number ← StateT.lift (r.anchors.lookup name)
  return (r.nodes.lookup number).getD .invalid

/-- The whole start of a tag with a declared handle, or one that needs no declaration. -/
def resolve (handle suffix : String) : Read (String × String) := do
  let handles := (← get).handles
  if handle = "!!" then return ((handles.lookup "!!").getD Node.coreTags, suffix)
  else
    match handles.lookup handle with
    | some full => return (full, suffix)
    | none => if 2 ≤ handle.length then failure else return (handle, suffix)

/-- The anchor and tag in front of a node, in either order. -/
def properties : Read (Option Nat × Option (String × String)) := do
  match ← peek with
  | some (.anchor name) => do
    skip
    let number ← anchor name
    match ← peek with
    | some (.tag handle suffix) => do
      skip
      return (some number, some (← resolve handle suffix))
    | _ => return (some number, none)
  | some (.tag handle suffix) => do
    skip
    let tag ← resolve handle suffix
    match ← peek with
    | some (.anchor name) => do
      skip
      return (some (← anchor name), some tag)
    | _ => return (none, some tag)
  | _ => return (none, none)

/-- The node that is left out. -/
def missing : Node := .value .nil

mutual

/-- Reads a node, where a block or a sequence that is not indented further may or may not begin. -/
def node (block flush : Bool) : (fuel : Nat) → Read Node
  | 0 => failure
  | fuel + 1 => do
    match ← peek with
    | some (.reference name) => do
      skip
      referent name
    | _ => do
      let (number, tag) ← properties
      let n ← match ← peek, block, flush with
        | some .blockEntry, _, true => do
          pure (Node.ofList (← flushItems fuel))
        | some (.scalar plain text), _, _ => do
          skip
          pure (Node.ofScalar plain tag text)
        | some .flowSequenceStart, _, _ => do
          skip
          pure (Node.ofList (← flowItems true fuel))
        | some .flowMappingStart, _, _ => do
          skip
          StateT.lift (Node.ofPairs? (← flowPairs true fuel))
        | some .blockSequenceStart, true, _ => do
          skip
          pure (Node.ofList (← blockItems fuel))
        | some .blockMappingStart, true, _ => do
          skip
          StateT.lift (Node.ofPairs? (← blockPairs fuel))
        | _, _, _ =>
          if number.isSome || tag.isSome then pure (Node.ofScalar true tag "") else failure
      if let some number := number then
        modify fun r => { r with nodes := (number, n) :: r.nodes }
      return n

/-- Reads the rest of a block sequence. -/
def blockItems : (fuel : Nat) → Read (List Node)
  | 0 => failure
  | fuel + 1 => do
    match ← peek with
    | some .blockEnd => do
      skip
      return []
    | some .blockEntry => do
      skip
      let n ← match ← peek with
        | some .blockEntry | some .blockEnd => pure missing
        | _ => node true false fuel
      return n :: (← blockItems fuel)
    | _ => failure

/-- Reads the rest of a sequence that is not indented further than the mapping it is in. -/
def flushItems : (fuel : Nat) → Read (List Node)
  | 0 => failure
  | fuel + 1 => do
    match ← peek with
    | some .blockEntry => do
      skip
      let n ← match ← peek with
        | some .blockEntry | some .key | some .value | some .blockEnd => pure missing
        | _ => node true false fuel
      return n :: (← flushItems fuel)
    | _ => return []

/-- Reads a key or value of a block mapping, behind its indicator. -/
def blockSide : (fuel : Nat) → Read Node
  | 0 => failure
  | fuel + 1 => do
    match ← peek with
    | some .key | some .value | some .blockEnd => return missing
    | _ => node true true fuel

/-- Reads the rest of a block mapping. -/
def blockPairs : (fuel : Nat) → Read (List Node)
  | 0 => failure
  | fuel + 1 => do
    match ← peek with
    | some .blockEnd => do
      skip
      return []
    | some .key => do
      skip
      let k ← blockSide fuel
      let v ← blockValue fuel
      return k :: v :: (← blockPairs fuel)
    | some .value => do
      let v ← blockValue fuel
      return missing :: v :: (← blockPairs fuel)
    | _ => failure

/-- Reads the value of a block mapping behind its key. -/
def blockValue : (fuel : Nat) → Read Node
  | 0 => failure
  | fuel + 1 => do
    match ← peek with
    | some .value => do
      skip
      blockSide fuel
    | _ => return missing

/-- Reads the rest of a flow mapping. -/
def flowPairs (first : Bool) : (fuel : Nat) → Read (List Node)
  | 0 => failure
  | fuel + 1 => do
    match ← peek, first with
    | some .flowMappingEnd, _ => do
      skip
      return []
    | some .flowEntry, false => do
      skip
      match ← peek with
      | some .flowMappingEnd => do
        skip
        return []
      | _ => flowPair fuel
    | _, false => failure
    | _, true => flowPair fuel

/-- Reads a pair of a flow mapping and what follows it. -/
def flowPair : (fuel : Nat) → Read (List Node)
  | 0 => failure
  | fuel + 1 => do
    match ← peek with
    | some .key => do
      skip
      let k ← match ← peek with
        | some .value | some .flowEntry | some .flowMappingEnd => pure missing
        | _ => node false false fuel
      let v ← flowValue fuel
      return k :: v :: (← flowPairs false fuel)
    | some .value => do
      let v ← flowValue fuel
      return missing :: v :: (← flowPairs false fuel)
    | _ => do
      let k ← node false false fuel
      return k :: missing :: (← flowPairs false fuel)

/-- Reads the value of a flow mapping behind its key. -/
def flowValue : (fuel : Nat) → Read Node
  | 0 => failure
  | fuel + 1 => do
    match ← peek with
    | some .value => do
      skip
      match ← peek with
      | some .flowEntry | some .flowMappingEnd => return missing
      | _ => node false false fuel
    | _ => return missing

/-- Reads the rest of a flow sequence. -/
def flowItems (first : Bool) : (fuel : Nat) → Read (List Node)
  | 0 => failure
  | fuel + 1 => do
    match ← peek, first with
    | some .flowSequenceEnd, _ => do
      skip
      return []
    | some .flowEntry, false => do
      skip
      match ← peek with
      | some .flowSequenceEnd => do
        skip
        return []
      | _ => flowItem fuel
    | _, false => failure
    | _, true => flowItem fuel

/-- Reads an item of a flow sequence and what follows it. A key begins a mapping of one pair; where the
key itself is left out, the token that shows it is read over. -/
def flowItem : (fuel : Nat) → Read (List Node)
  | 0 => failure
  | fuel + 1 => do
    match ← peek with
    | some .key => do
      skip
      let k ← match ← peek with
        | some .value | some .flowEntry | some .flowSequenceEnd => do
          skip
          pure missing
        | _ => node false false fuel
      let v ← flowItemValue fuel
      let n ← StateT.lift (Node.ofPairs? [k, v])
      return n :: (← flowItems false fuel)
    | _ => do
      let n ← node false false fuel
      return n :: (← flowItems false fuel)

/-- Reads the value of a mapping of one pair behind its key. -/
def flowItemValue : (fuel : Nat) → Read Node
  | 0 => failure
  | fuel + 1 => do
    match ← peek with
    | some .value => do
      skip
      match ← peek with
      | some .flowEntry | some .flowSequenceEnd => return missing
      | _ => node false false fuel
    | _ => return missing

end

/-- Reads over the ends of documents. -/
def documentEnds : Read Unit :=
  modify fun r => { r with
    rest := r.rest.dropWhile fun
      | .documentEnd => true
      | _ => false }

/-- Reads the directives in front of a document; the handle of the last one counts. -/
def directives (versioned : Bool) : (fuel : Nat) → Read Unit
  | 0 => failure
  | fuel + 1 => do
    match ← peek with
    | some .version => do
      if versioned then failure
      modify fun r => { r with handles := [] }
      skip
      directives true fuel
    | some (.tagDirective handle start) => do
      modify fun r => { r with handles := [(handle, start)] }
      skip
      directives versioned fuel
    | _ => return

/-- Reads the one document of a text, if there is one. -/
def document (fuel : Nat) : Read (Option Node) := do
  documentEnds
  let n ← match ← peek with
    | none => return none
    | some .version | some (.tagDirective _ _) | some .documentStart => do
      directives false fuel
      match ← peek with
      | some .documentStart => do
        skip
        match ← peek with
        | none | some .version | some (.tagDirective _ _) | some .documentStart
        | some .documentEnd => pure missing
        | _ => node true false fuel
      | _ => failure
    | _ => node true false fuel
  documentEnds
  match ← peek with
  | none => return some n
  | some _ => failure

end Read

/-- The value of the one document that a text spells; an empty table, if there is none. -/
def parse? (text : List Char) : Option Value := do
  let tokens ← Scanner.tokens? text
  let (n, _) ← Read.document (3 * tokens.length + 10) ⟨tokens, [], [], []⟩
  match n with
  | some n => n.toValue?
  | none => some (.table [])

end LiveConfig.Yaml
