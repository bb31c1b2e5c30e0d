import LiveConfig.Yaml.Token

/-!
# Yaml — Scanner

The state of the reader that finds tokens: where it stands, how far it is indented, and which tokens
could still turn out to be keys. A key without an indicator shows only by the colon behind it; then the
tokens that announce it are put in front of it.
-/

namespace LiveConfig.Yaml

/-- A token that may turn out to begin a key: its number, and where it stands. A required one begins a
line of a mapping, which nothing else may do. -/
structure PossibleKey where
  possible : Bool
  required : Bool
  number : Nat
  index : Nat
  line : Nat
  col : Nat

def PossibleKey.none : PossibleKey := ⟨false, false, 0, 0, 0, 0⟩

/-- A level of indentation to return to, and whether a block ends with the current one. -/
structure Indent where
  indent : Int
  isBlock : Bool

structure Scanner where
  rest : List Char
  index : Nat
  line : Nat
  col : Nat
  /-- Nothing but blanks was read in this line. -/
  leading : Bool
  /-- The tokens so far, the last first, and their number. -/
  tokens : List Token
  count : Nat
  /-- A key may begin here. -/
  keyAllowed : Bool
  /-- The possible key of each open flow collection, and of the block around them. -/
  keys : List PossibleKey
  indent : Int
  indents : List Indent
  /-- How many flow collections are open. -/
  flow : Nat
  /-- Where a value may follow its key without a blank. -/
  adjacentAt : Nat
  /-- A flow mapping was opened by its indicator or that of a key. -/
  inMapping : Bool
  /-- A mapping of one pair is open that has no indicators. -/
  implied : Bool

/-- A step of the scanner, which may fail. -/
abbrev Scan (α : Type) := StateT Scanner Option α

namespace Scanner

def start (text : List Char) : Scanner :=
  { rest := text, index := 0, line := 1, col := 0, leading := true, tokens := [], count := 0,
    keyAllowed := true, keys := [.none], indent := -1, indents := [], flow := 0, adjacentAt := 0,
    inMapping := false, implied := false }

/-- The character so many places ahead. -/
def ahead (s : Scanner) (n : Nat) : Char := s.rest[n]?.getD '\x00'

/-- The next character. -/
def ch (s : Scanner) : Char := s.ahead 0

/-! ### Moving on -/

/-- Skips a character without taking it for content. -/
def skip (s : Scanner) : Scanner :=
  { s with rest := s.rest.drop 1, index := s.index + 1, col := s.col + 1 }

/-- Reads over so many characters. -/
def eat (s : Scanner) (n : Nat) : Scanner :=
  { s with rest := s.rest.drop n, index := s.index + n, col := s.col + n, leading := false }

/-- Goes to the next line, over one of the three ways to end a line. -/
def nextLine (s : Scanner) : Scanner :=
  let n := if s.ch == '\r' && s.ahead 1 == '\n' then 2 else 1
  if isBreak s.ch then
    { s with
      rest := s.rest.drop n, index := s.index + n, line := s.line + 1, col := 0, leading := true }
  else s

/-- Reads over the characters in front that are wanted. -/
def eatWhile (s : Scanner) (p : Char → Bool) : String × Scanner :=
  let cs := s.rest.takeWhile p
  (String.ofList cs, if cs.isEmpty then s else s.eat cs.length)

/-- The line begins with a mark between documents. -/
def atDocumentMark (s : Scanner) (c : Char) : Bool :=
  s.col == 0 && s.ch == c && s.ahead 1 == c && s.ahead 2 == c && isGap (s.ahead 3)

def atDocumentEdge (s : Scanner) : Bool := s.atDocumentMark '-' || s.atDocumentMark '.'

/-! ### Tokens -/

def push (s : Scanner) (t : Token) : Scanner :=
  { s with tokens := t :: s.tokens, count := s.count + 1 }

/-- Puts a token in front of the one with a number. -/
def pushAt (s : Scanner) (number : Nat) (t : Token) : Scanner :=
  let after := s.count - number
  { s with tokens := s.tokens.take after ++ t :: s.tokens.drop after, count := s.count + 1 }

/-! ### Indentation -/

/-- Gives up levels that no block goes with. -/
def dropLooseIndents (s : Scanner) : Scanner :=
  match s.indents.dropWhile (!·.isBlock), s.indents.takeWhile (!·.isBlock) with
  | _, [] => s
  | kept, loose => { s with indents := kept, indent := (loose.getLast?.map (·.indent)).getD s.indent }

/-- Indents by one more column without a block. -/
def indentLoosely (s : Scanner) : Scanner :=
  if s.flow == 0 && (s.indents.head?.map (·.isBlock)).getD false then
    { s with indents := ⟨s.indent, false⟩ :: s.indents, indent := s.indent + 1 }
  else s

/-- Opens a block at a column, unless one is open there; its token goes in front of the one with a
number, or behind all. -/
def openBlock (s : Scanner) (col : Nat) (number : Option Nat) (t : Token) : Scanner :=
  if 0 < s.flow then s
  else
    let s :=
      match s.indents with
      | last :: others =>
        if s.indent ≤ (col : Int) && !last.isBlock then { s with indent := last.indent, indents := others }
        else s
      | [] => s
    if s.indent < (col : Int) then
      let s := { s with indents := ⟨s.indent, true⟩ :: s.indents, indent := (col : Int) }
      match number with
      | some n => s.pushAt n t
      | none => s.push t
    else s

/-- Closes the blocks of the given levels that are indented further than a column. -/
def closeLevels (col : Int) (s : Scanner) : List Indent → Scanner
  | [] => s
  | last :: others =>
    if col < s.indent then
      let s := { s with indent := last.indent, indents := others }
      closeLevels col (if last.isBlock then s.push .blockEnd else s) others
    else s

/-- Closes the blocks that are indented further than a column. -/
def closeBlocks (s : Scanner) (col : Int) : Scanner :=
  if 0 < s.flow then s else closeLevels col s s.indents

/-! ### Possible keys -/

def key (s : Scanner) : PossibleKey := s.keys.head?.getD .none

def setKey (s : Scanner) (k : PossibleKey) : Scanner := { s with keys := k :: s.keys.drop 1 }

/-- The next token may begin a key. -/
def noteKey (s : Scanner) : Scanner :=
  if s.keyAllowed then
    let required := s.flow == 0 && s.indent == s.col && (s.indents.head?.map (·.isBlock)).getD false
    s.setKey ⟨true, required, s.count, s.index, s.line, s.col⟩
  else s

/-- What has begun is no key. -/
def dropKey : Scan Unit := do
  let s ← get
  if s.key.possible && s.key.required then failure
  else set (s.setKey { s.key with possible := false })

/-- Outside of flow collections, a key is in one line, and not too long. -/
def isStale (s : Scanner) (k : PossibleKey) : Bool :=
  k.possible && s.flow == 0 && (k.line < s.line || k.index + 1024 < s.index)

/-- Gives up possible keys that are too far back. -/
def dropStaleKeys : Scan Unit := do
  let s ← get
  if s.keys.any fun k => s.isStale k && k.required then failure
  else set { s with keys := s.keys.map fun k => if s.isStale k then { k with possible := false } else k }

def allowKey (allowed : Bool) : Scan Unit := modify fun s => { s with keyAllowed := allowed }

/-! ### Between tokens -/

/-- Reads over a comment. -/
def comment : Scan Unit := modify fun s => (s.eatWhile (!isLineEnd ·)).2

/-- What was skipped: tabs, and spaces. -/
structure Skipped where
  tabs : Bool
  spaces : Bool

/-- Skips blanks and a comment up to the end of the line; a comment has a blank before it. -/
def toLineEnd (tabs : Bool) (seen : Skipped) : (fuel : Nat) → Scan Skipped
  | 0 => return seen
  | fuel + 1 => do
    let s ← get
    if s.ch == ' ' then
      set s.skip
      toLineEnd tabs { seen with spaces := true } fuel
    else if s.ch == '\t' && tabs then
      set s.skip
      toLineEnd tabs { seen with tabs := true } fuel
    else if s.ch == '#' then
      if seen.tabs || seen.spaces then do
        comment
        toLineEnd tabs seen fuel
      else failure
    else return seen

/-- Skips to the end of the line. -/
def skipToLineEnd (tabs : Bool) : Scan Skipped := do
  toLineEnd tabs ⟨false, false⟩ ((← get).rest.length + 1)

/-- Skips everything up to the next token. Tabs do not indent blocks. -/
def toToken : (fuel : Nat) → Scan Unit
  | 0 => return
  | fuel + 1 => do
    let s ← get
    if s.ch == '\t' && !s.indents.isEmpty && s.leading && s.col < s.indent then do
      let _ ← skipToLineEnd true
      if isLineEnd (← get).ch then toToken fuel else failure
    else if isSpace s.ch then do
      set s.skip
      toToken fuel
    else if isBreak s.ch then do
      set s.nextLine
      if s.flow == 0 then allowKey true
      toToken fuel
    else if s.ch == '#' then do
      comment
      toToken fuel
    else return

def skipToToken : Scan Unit := do toToken ((← get).rest.length + 1)

/-- Skips spaces, line ends and comments behind the indicator of a key, of which there is one at
least. -/
def toKey (needed : Bool) : (fuel : Nat) → Scan Unit
  | 0 => if needed then failure else return
  | fuel + 1 => do
    let s ← get
    if s.ch == ' ' then do
      set s.skip
      toKey false fuel
    else if isBreak s.ch then do
      set s.nextLine
      if s.flow == 0 then allowKey true
      toKey false fuel
    else if s.ch == '#' then do
      comment
      toKey needed fuel
    else if needed then failure
    else return

end Scanner

end LiveConfig.Yaml
