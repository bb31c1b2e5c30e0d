import LiveConfig.Text.Escape
import LiveConfig.Yaml.Scanner

/-!
# Yaml — Scalar

The three ways to write a scalar: plain, between quotes, and as a block of lines. Where a scalar goes
over several lines, the line ends in it are folded: a single one becomes a space, and of several all but
the first remain.
-/

namespace LiveConfig.Yaml.Scanner

/-! ### Folding -/

/-- What has been read of a scalar, and the blanks and line ends behind it, of which it depends on what
follows whether they belong to the scalar. -/
structure Fold where
  text : List Char
  /-- Blanks behind the text in its line. -/
  blanks : List Char
  /-- A line end was read. -/
  broken : Bool
  /-- More line ends behind that one. -/
  more : Nat

def Fold.start : Fold := ⟨[], [], false, 0⟩

/-- The text together with what the blanks and line ends behind it come to, where `fresh` says that the
current line has only blanks so far. Text is kept backwards. -/
def Fold.join (f : Fold) (fresh : Bool) : List Char :=
  let breaks := List.replicate f.more '\n'
  if fresh then (if f.broken && f.more == 0 then ' ' :: f.text else breaks ++ f.text)
  else f.blanks ++ f.text

/-- Appends characters. -/
def Fold.add (f : Fold) (fresh : Bool) (cs : List Char) : Fold :=
  ⟨cs.reverse ++ f.join fresh, [], false, 0⟩

def Fold.toString (f : Fold) : String := String.ofList f.text.reverse

/-! ### Plain scalars -/

/-- How many of the characters in front are one run of a plain scalar. -/
def plainRun (flow : Bool) : List Char → Nat
  | [] => 0
  | c :: rest =>
    let next := rest.head?.getD '\x00'
    if isGap c || (c == ':' && (isGap next || (flow && isFlow next))) || (flow && isFlow c) then 0
    else plainRun flow rest + 1

/-- Reads blanks and line ends behind a run of a plain scalar that continues from column `indent` on.
Tabs do not indent it. -/
def plainGap (indent : Int) (f : Fold) : (fuel : Nat) → Scan Fold
  | 0 => return f
  | fuel + 1 => do
    let s ← get
    if isSpace s.ch then
      if !s.leading then do
        set s.skip
        plainGap indent { f with blanks := s.ch :: f.blanks } fuel
      else if s.col < indent && s.ch == '\t' then do
        let _ ← skipToLineEnd true
        if isLineEnd (← get).ch then plainGap indent f fuel else failure
      else do
        set s.skip
        plainGap indent f fuel
    else if isBreak s.ch then do
      set s.nextLine
      if s.leading then plainGap indent { f with more := f.more + 1 } fuel
      else plainGap indent { f with blanks := [], broken := true } fuel
    else return f

/-- Reads run after run. -/
def plainRuns (indent : Int) (f : Fold) : (fuel : Nat) → Scan Fold
  | 0 => return f
  | fuel + 1 => do
    let s ← get
    if s.atDocumentEdge || s.ch == '#' then return f
    else if 0 < s.flow && s.ch == '-' && isFlow (s.ahead 1) then failure
    else do
      let n := plainRun (0 < s.flow) s.rest
      let f := if n = 0 then f else f.add s.leading (s.rest.take n)
      let s := if n = 0 then s else s.eat n
      set s
      if isSpace s.ch || isBreak s.ch then do
        let f ← plainGap indent f (s.rest.length + 1)
        let s ← get
        if s.flow == 0 && s.col < indent then return f else plainRuns indent f fuel
      else return f

/-- Reads a plain scalar. -/
def plainScalar : Scan Unit := do
  modify dropLooseIndents
  let s ← get
  let indent := s.indent + 1
  if 0 < s.flow && s.col < indent then failure
  else do
    let f ← plainRuns indent .start (s.rest.length + 1)
    if (← get).leading then allowKey true
    modify fun s => s.push (.scalar true f.toString)

/-! ### Quoted scalars -/

/-- The character that an escape stands for. -/
def escaped : Scan Char := do
  let s ← get
  let code (digits : Nat) : Scan Char := do
    let ds := (s.rest.drop 2).take digits
    if ds.length == digits && ds.all Text.isHex then do
      set (s.eat (2 + digits))
      StateT.lift (Text.charOf? (Text.ofHex ds))
    else failure
  let short (c : Char) : Scan Char := do
    set (s.eat 2)
    return c
  match s.ahead 1 with
  | '0' => short '\x00'
  | 'a' => short '\x07'
  | 'b' => short '\x08'
  | 't' | '\t' => short '\t'
  | 'n' => short '\n'
  | 'v' => short '\x0b'
  | 'f' => short '\x0c'
  | 'r' => short '\r'
  | 'e' => short '\x1b'
  | ' ' => short ' '
  | '\x22' => short '\x22'
  | '/' => short '/'
  | '\\' => short '\\'
  | 'N' => short '\x85'
  | '_' => short '\xa0'
  | 'L' => short '\u2028'
  | 'P' => short '\u2029'
  | 'x' => code 2
  | 'u' => code 4
  | 'U' => code 8
  | _ => failure

/-- Reads characters up to a blank, a line end or the closing quote. A line end that is escaped is left
out, and then the answer is true. -/
def quotedRun (single : Bool) (f : Fold) : (fuel : Nat) → Scan (Fold × Bool)
  | 0 => return (f, false)
  | fuel + 1 => do
    let s ← get
    if isGap s.ch then return (f, false)
    else if single then
      if s.ch == '\x27' then
        if s.ahead 1 == '\x27' then do
          set (s.eat 2)
          quotedRun single { f with text := '\x27' :: f.text } fuel
        else return (f, false)
      else do
        set (s.eat 1)
        quotedRun single { f with text := s.ch :: f.text } fuel
    else if s.ch == '\x22' then return (f, false)
    else if s.ch == '\\' then
      if isBreak (s.ahead 1) then do
        set (s.eat 1).nextLine
        return (f, true)
      else do
        let c ← escaped
        quotedRun single { f with text := c :: f.text } fuel
    else do
      set (s.eat 1)
      quotedRun single { f with text := s.ch :: f.text } fuel

/-- Reads blanks and line ends within quotes, where `fresh` says that a line end was read. -/
def quotedGap (f : Fold) (fresh : Bool) : (fuel : Nat) → Scan (Fold × Bool)
  | 0 => return (f, fresh)
  | fuel + 1 => do
    let s ← get
    if isSpace s.ch then
      if fresh && s.ch == '\t' && s.col < s.indent then failure
      else do
        set s.skip
        quotedGap (if fresh then f else { f with blanks := s.ch :: f.blanks }) fresh fuel
    else if isBreak s.ch then do
      set s.nextLine
      if fresh then quotedGap { f with more := f.more + 1 } true fuel
      else quotedGap { f with blanks := [], broken := true } true fuel
    else return (f, fresh)

/-- Reads everything up to the closing quote. -/
def quotedRuns (single : Bool) (f : Fold) : (fuel : Nat) → Scan Fold
  | 0 => failure
  | fuel + 1 => do
    let s ← get
    if s.atDocumentEdge || isEnd s.ch || s.col < s.indent then failure
    else do
      let (f, fresh) ← quotedRun single f (s.rest.length + 1)
      let s ← get
      if s.ch == (if single then '\x27' else '\x22') then return f
      else do
        let (f, fresh) ← quotedGap f fresh (s.rest.length + 1)
        quotedRuns single (f.add fresh []) fuel

/-- Reads a scalar between quotes. Only what may follow a scalar follows it in its line. -/
def quotedScalar (single : Bool) : Scan Unit := do
  let started := (← get).line
  modify (·.eat 1)
  let f ← quotedRuns single .start ((← get).rest.length + 1)
  modify (·.eat 1)
  let _ ← skipToLineEnd true
  let s ← get
  let ends := isLineEnd s.ch ||
    if s.flow == 0 then s.ch == ':' && s.line == started
    else s.ch == ':' || s.ch == ',' || s.ch == ']' || s.ch == '\x7d'
  if ends then modify fun s => s.push (.scalar false f.toString) else failure

/-! ### Blocks of lines -/

/-- What becomes of the line ends at the end of a block of lines: one is kept, none, or all. -/
inductive Chomping where
  | clip
  | strip
  | keep

/-- Reads a sign that says how to chomp. -/
def chomping : Scan (Option Chomping) := do
  let s ← get
  if s.ch == '+' then do
    set (s.eat 1)
    return some .keep
  else if s.ch == '-' then do
    set (s.eat 1)
    return some .strip
  else return none

/-- Reads a digit that says how far the lines are indented; zero if there is none. -/
def indentDigit : Scan Nat := do
  let s ← get
  if s.ch == '0' then failure
  else if s.ch.isDigit then do
    set (s.eat 1)
    return s.ch.toNat - 0x30
  else return 0

/-- Reads a line end, if there is one. -/
def lineBreak : Scan Nat := do
  let s ← get
  set s.nextLine
  return if isBreak s.ch then 1 else 0

/-- Skips spaces up to a column. -/
def skipIndent (col : Nat) (s : Scanner) : Scanner :=
  let n := ((s.rest.takeWhile (· == ' ')).take (col - s.col)).length
  { s with rest := s.rest.drop n, index := s.index + n, col := s.col + n }

/-- Skips empty lines and the indentation of the line behind them, and counts the lines. -/
def blockIndent (indent : Nat) (lines : Nat) : (fuel : Nat) → Scan Nat
  | 0 => return lines
  | fuel + 1 => do
    modify (skipIndent indent)
    let s ← get
    if isBreak s.ch then do
      set s.nextLine
      blockIndent indent (lines + 1) fuel
    else return lines

/-- The same where the indentation is not known; it is that of the longest line of spaces. -/
def firstIndent (indent lines : Nat) : (fuel : Nat) → Scan (Nat × Nat)
  | 0 => return (indent, lines)
  | fuel + 1 => do
    modify fun s => skipIndent (s.col + s.rest.length) s
    let s ← get
    let indent := max indent s.col
    if isBreak s.ch then do
      set s.nextLine
      firstIndent indent (lines + 1) fuel
    else return (indent, lines)

/-- What has been read of a block of lines: its text backwards, whether a line end follows it, how many
more do, and whether its last line began with a blank. -/
structure Block where
  text : List Char
  broken : Bool
  more : Nat
  blank : Bool

/-- Reads line after line. Line ends are folded between lines that do not begin with a blank. -/
def blockLines (literal : Bool) (indent : Nat) (b : Block) : (fuel : Nat) → Scan Block
  | 0 => return b
  | fuel + 1 => do
    let s ← get
    if s.col != indent || isEnd s.ch || (indent == 0 && s.atDocumentMark '.') then return b
    else do
      let blank := isSpace s.ch
      let breaks := List.replicate b.more '\n'
      let text :=
        if !literal && b.broken && !b.blank && !blank then
          (if b.more = 0 then ' ' :: b.text else breaks ++ b.text)
        else breaks ++ (if b.broken then '\n' :: b.text else b.text)
      let (line, s) := s.eatWhile (!isLineEnd ·)
      let b := ⟨line.toList.reverse ++ text, false, 0, blank⟩
      set s
      if isEnd s.ch then return b
      else do
        set s.nextLine
        let more ← blockIndent indent 0 (s.rest.length + 1)
        blockLines literal indent { b with broken := true, more := more } fuel

/-- Reads a block of lines. -/
def blockScalar (literal : Bool) : Scan Unit := do
  let started := (← get).line
  modify fun s => (s.eat 1).dropLooseIndents
  let first ← chomping
  let step ← indentDigit
  let second ← if step != 0 && first.isNone then chomping else pure none
  let chomp := (first.or second).getD .clip
  let _ ← skipToLineEnd true
  if isLineEnd (← get).ch then pure () else failure
  let firstBreak ← lineBreak
  let s ← get
  if s.ch == '\t' then failure
  else do
    let fuel := s.rest.length + 1
    let (indent, more) ←
      if step = 0 then do
        let (col, more) ← firstIndent 0 0 fuel
        pure (max (max col (s.indent + 1).toNat) (if 0 < s.indent then 1 else 0), more)
      else do
        let indent := (max s.indent 0).toNat + step
        pure (indent, ← blockIndent indent 0 fuel)
    let s ← get
    if isEnd s.ch then do
      let kept :=
        match chomp with
        | .strip => 0
        | .clip => if s.line = started then 0 else firstBreak
        | .keep => if s.line = started then 0 else if more = 0 then firstBreak else more
      modify fun s => s.push (.scalar false (String.ofList (List.replicate kept '\n')))
    else if s.col < indent && s.indent < (s.col : Int) then failure
    else do
      let b ← blockLines literal indent ⟨[], false, more, false⟩ fuel
      let s ← get
      let last := (if b.broken then 1 else 0) + (if isEnd s.ch && max indent 1 ≤ s.col then 1 else 0)
      let kept :=
        match chomp with
        | .strip => 0
        | .clip => last
        | .keep => last + b.more
      modify fun s => s.push
        (.scalar false (String.ofList (b.text.reverse ++ List.replicate kept '\n')))

end LiveConfig.Yaml.Scanner
