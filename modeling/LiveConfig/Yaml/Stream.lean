import LiveConfig.Yaml.Scalar
import LiveConfig.Yaml.Tag

/-!
# Yaml — Stream

The tokens of a whole text. What comes next shows by one or two characters; the rest of the work is to
keep track of what may be a key, and of how far blocks are indented.
-/

namespace LiveConfig.Yaml.Scanner

/-! ### Flow collections -/

/-- The mapping of one pair that is open without indicators ends. -/
def endImplied : Scan Unit :=
  modify fun s =>
    if s.implied then { s with implied := false, inMapping := false }.push .flowMappingEnd else s

/-- Reads the indicator that opens a flow collection. It may begin a key. -/
def flowStart (t : Token) (mapping : Bool) : Scan Unit := do
  modify fun s => s.noteKey.indentLoosely
  let s ← get
  if 255 ≤ s.flow then failure
  else do
    set { s with keys := .none :: s.keys, flow := s.flow + 1, keyAllowed := true }
    modify fun s =>
      let s := s.eat 1
      { s with inMapping := s.inMapping || mapping }
    let _ ← skipToLineEnd true
    modify (·.push t)

/-- Reads the indicator that closes a flow collection. -/
def flowEnd (t : Token) : Scan Unit := do
  dropKey
  modify fun s => if 0 < s.flow then { s with flow := s.flow - 1, keys := s.keys.drop 1 } else s
  allowKey false
  endImplied
  modify (·.eat 1)
  let _ ← skipToLineEnd true
  modify fun s => if 0 < s.flow then { s with adjacentAt := s.index } else s
  modify (·.push t)

/-- Reads a comma. -/
def flowEntry : Scan Unit := do
  dropKey
  allowKey true
  endImplied
  modify (·.eat 1)
  let _ ← skipToLineEnd true
  modify (·.push .flowEntry)

/-! ### Blocks -/

/-- Reads the indicator of an entry of a block sequence. -/
def blockEntry : Scan Unit := do
  let s ← get
  if 0 < s.flow || !s.keyAllowed then failure
  else do
    set ((s.eat 1).openBlock s.col none .blockSequenceStart)
    let skipped ← skipToLineEnd true
    let s ← get
    if skipped.tabs && s.ch == '-' && isGap (s.ahead 1) then failure
    else do
      let _ ← skipToLineEnd false
      modify fun s => if isBreak s.ch || isFlow s.ch then s.indentLoosely else s
      dropKey
      allowKey true
      modify (·.push .blockEntry)

/-- Reads the indicator of a key. -/
def keyIndicator : Scan Unit := do
  let s ← get
  if s.flow == 0 && !s.keyAllowed then failure
  else do
    if s.flow == 0 then set (s.openBlock s.col none .blockMappingStart)
    else set { s with inMapping := true }
    dropKey
    allowKey (s.flow == 0)
    modify (·.eat 1)
    toKey true ((← get).rest.length + 1)
    let s ← get
    if s.ch == '\t' then failure else set (s.push .key)

/-- Reads the colon between a key and its value. The tokens that announce the key are put in front of
what has turned out to be one. -/
def valueIndicator : Scan Unit := do
  let s ← get
  let key := s.key
  let col := s.col
  let line := s.line
  let implied := 0 < s.flow && !s.inMapping
  set { s.eat 1 with implied := implied }
  if (← get).ch == '\t' then do
    let skipped ← skipToLineEnd true
    let c := (← get).ch
    if !skipped.spaces && (c == '-' || c.isAlphanum || c == '_') then failure
  if key.possible then do
    modify (·.pushAt key.number .key)
    if implied then
      if key.line < line then failure
      else modify (·.pushAt key.number .flowMappingStart)
    modify fun s => (s.openBlock key.col (some key.number) .blockMappingStart).indentLoosely
    modify fun s => s.setKey { s.key with possible := false }
    allowKey false
  else do
    if implied then modify (·.push .flowMappingStart)
    let s ← get
    if s.flow == 0 then
      if s.keyAllowed then set (s.openBlock col none .blockMappingStart) else failure
    modify (·.indentLoosely)
    allowKey ((← get).flow == 0)
  modify (·.push .value)

/-! ### Anchors -/

/-- Reads an anchor or a reference to one. -/
def named (t : String → Token) : Scan Unit := do
  modify (·.eat 1)
  let name ← word isAnchor
  if name == "" then failure else modify (·.push (t name))

/-! ### Documents -/

/-- Leaves all blocks; nothing before can be a key. -/
def leaveBlocks : Scan Unit := do
  modify (·.closeBlocks (-1))
  dropKey
  allowKey false

/-- Reads a mark between documents. Nothing stands behind the end of one. -/
def documentMark (t : Token) (last : Bool) : Scan Unit := do
  leaveBlocks
  modify fun s => (s.eat 3).push t
  if last then
    let _ ← skipToLineEnd true
    if isLineEnd (← get).ch then return else failure

/-! ### All tokens -/

/-- Reads what begins with the next character. A node may begin a key. -/
def content : Scan Unit := do
  let s ← get
  let gap := isGap (s.ahead 1)
  let node (thenAllowed : Bool) (read : Scan Unit) : Scan Unit := do
    modify noteKey
    allowKey thenAllowed
    read
  match s.ch with
  | '[' => flowStart .flowSequenceStart false
  | '\x7b' => flowStart .flowMappingStart true
  | ']' => flowEnd .flowSequenceEnd
  | '\x7d' => flowEnd .flowMappingEnd
  | ',' => flowEntry
  | '*' => node false (named .reference)
  | '&' => node false (named .anchor)
  | '!' => node false tag
  | '\x27' => node false do
    quotedScalar true
    skipToToken
    modify fun s => { s with adjacentAt := s.index }
  | '\x22' => node false do
    quotedScalar false
    skipToToken
    modify fun s => { s with adjacentAt := s.index }
  | '%' | '@' | '\x60' => failure
  | c =>
    if c == '-' && gap then blockEntry
    else if c == '?' && gap then keyIndicator
    else if c == ':' && (gap || (0 < s.flow && (isFlow (s.ahead 1) || s.index == s.adjacentAt))) then
      valueIndicator
    else if (c == '|' || c == '>') && s.flow == 0 then node true (blockScalar (c == '|'))
    else node false plainScalar

/-- Reads token after token up to the end. -/
def stream : (fuel : Nat) → Scan Unit
  | 0 => failure
  | fuel + 1 => do
    skipToToken
    dropStaleKeys
    modify fun s => s.closeBlocks s.col
    let s ← get
    if isEnd s.ch then
      if s.keys.any fun k => k.possible && k.required then failure
      else set (s.closeBlocks (-1))
    else do
      if s.col == 0 && s.ch == '%' then do
        leaveBlocks
        directive
      else if s.atDocumentMark '-' then documentMark .documentStart false
      else if s.atDocumentMark '.' then documentMark .documentEnd true
      else if s.col < s.indent then failure
      else content
      stream fuel

/-- The tokens of a text. -/
def tokens? (text : List Char) : Option (List Token) := do
  let (_, s) ← (stream (text.length + 2)) (start text)
  return s.tokens.reverse

end LiveConfig.Yaml.Scanner
