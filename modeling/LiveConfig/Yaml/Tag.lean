import LiveConfig.Text.Escape
import LiveConfig.Yaml.Scanner

/-!
# Yaml — Tag

The tags of nodes, and the directives at the start of a document, one of which declares handles for
tags.
-/

namespace LiveConfig.Yaml.Scanner

/-- Reads the characters in front that are wanted. -/
def word (p : Char → Bool) : Scan String := do
  let (w, s) := (← get).eatWhile p
  set s
  return w

/-- Skips blanks. -/
def skipSpaces : Scan Unit :=
  modify fun s =>
    let n := (s.rest.takeWhile isSpace).length
    { s with rest := s.rest.drop n, index := s.index + n, col := s.col + n }

/-- The octet that an escape of a URI spells. -/
def uriOctet : Scan Nat := do
  let s ← get
  if s.ch == '%' && Text.isHex (s.ahead 1) && Text.isHex (s.ahead 2) then do
    set (s.eat 3)
    return Text.ofHex [s.ahead 1, s.ahead 2]
  else failure

/-- The character that one or two escapes spell: a lone octet is its number, and two that are led in as
such are put side by side. -/
def uriEscape : Scan Char := do
  let first ← uriOctet
  if first < 0x80 then return Char.ofNat first
  else if 0xC0 ≤ first && first < 0xE0 then do
    let second ← uriOctet
    if 0x80 ≤ second && second < 0xC0 then StateT.lift (Text.charOf? (256 * first + second))
    else failure
  else failure

/-- Reads characters of a URI, which may be escaped. -/
def uri (p : Char → Bool) (acc : List Char) : (fuel : Nat) → Scan (List Char)
  | 0 => return acc
  | fuel + 1 => do
    let s ← get
    if !p s.ch then return acc
    else if s.ch == '%' then do
      let c ← uriEscape
      uri p (acc ++ [c]) fuel
    else do
      set (s.eat 1)
      uri p (acc ++ [s.ch]) fuel

def uriOf (p : Char → Bool) : Scan (List Char) := do uri p [] ((← get).rest.length + 1)

/-- Reads a handle, or what could be the start of a tag without one. A directive needs a whole one. -/
def tagHandle (directive : Bool) : Scan String := do
  let s ← get
  if s.ch != '!' then failure
  else do
    set (s.eat 1)
    let name ← word isWord
    let s ← get
    if s.ch == '!' then do
      set (s.eat 1)
      return "!" ++ name ++ "!"
    else if directive && name != "" then failure
    else return "!" ++ name

/-- Reads a tag. -/
def tag : Scan Unit := do
  let s ← get
  let (handle, suffix) ←
    if s.ahead 1 == '<' then do
      set (s.eat 2)
      let suffix ← uriOf isUri
      let s ← get
      if s.ch == '>' then do
        set (s.eat 1)
        pure ("", String.ofList suffix)
      else failure
    else do
      let handle ← tagHandle false
      let suffix ← uriOf isTag
      if handle.endsWith "!" && handle != "!" then
        if suffix.isEmpty then failure else pure (handle, String.ofList suffix)
      else
        let suffix := handle.toList.drop 1 ++ suffix
        if suffix.isEmpty then pure ("", "!") else pure ("!", String.ofList suffix)
  let s ← get
  if isGap s.ch || (0 < s.flow && isFlow s.ch) then set (s.push (.tag handle suffix)) else failure

/-- Reads a number of the version of YAML. -/
def versionNumber : Scan Unit := do
  let ds ← word Char.isDigit
  if ds == "" || 9 < ds.length then failure

/-- Reads what stands in a directive behind its name; unknown ones are read over. -/
def directiveContent (name : String) : Scan Token := do
  if name = "YAML" then do
    skipSpaces
    versionNumber
    let s ← get
    if s.ch != '.' then failure
    else do
      set (s.eat 1)
      versionNumber
      return .version
  else if name = "TAG" then do
    skipSpaces
    let handle ← tagHandle true
    skipSpaces
    let s ← get
    let first ←
      if s.ch == '!' then do
        set (s.eat 1)
        pure '!'
      else if !isTag s.ch then failure
      else if s.ch == '%' then uriEscape
      else do
        set (s.eat 1)
        pure s.ch
    let rest ← uriOf isUri
    if isGap (← get).ch then return .tagDirective handle (String.ofList (first :: rest)) else failure
  else do
    let _ ← word (!isLineEnd ·)
    return .tagDirective "" ""

/-- Reads a directive. -/
def directive : Scan Unit := do
  modify (·.eat 1)
  let name ← word fun c => isWord c
  if name == "" || !isGap (← get).ch then failure
  else do
    let t ← directiveContent name
    let _ ← skipToLineEnd true
    let s ← get
    if isLineEnd s.ch then set (s.nextLine.push t) else failure

end LiveConfig.Yaml.Scanner
