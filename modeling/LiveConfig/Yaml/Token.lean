/-!
# Yaml — Token

The tokens of a YAML stream, and the classes of characters by which they are told apart. What lies
behind the end of the text is the null character, and a null character in the text ends it.
-/

namespace LiveConfig.Yaml

/-- A token. Those that open and close blocks stand where the indentation changes, and a key or value
where its indicator is or is implied. -/
inductive Token where
  | version
  | tagDirective (handle start : String)
  | documentStart
  | documentEnd
  | blockSequenceStart
  | blockMappingStart
  | blockEnd
  | flowSequenceStart
  | flowSequenceEnd
  | flowMappingStart
  | flowMappingEnd
  | blockEntry
  | flowEntry
  | key
  | value
  | reference (name : String)
  | anchor (name : String)
  | tag (handle suffix : String)
  | scalar (plain : Bool) (text : String)

/-- The end of the text. -/
def isEnd (c : Char) : Bool := c == '\x00'

/-- The end of a line. -/
def isBreak (c : Char) : Bool := c == '\n' || c == '\r'

/-- A blank within a line. -/
def isSpace (c : Char) : Bool := c == ' ' || c == '\t'

def isLineEnd (c : Char) : Bool := isBreak c || isEnd c

/-- What ends a word. -/
def isGap (c : Char) : Bool := isSpace c || isLineEnd c

/-- An indicator of flow collections. -/
def isFlow (c : Char) : Bool := c == ',' || c == '[' || c == ']' || c == '\x7b' || c == '\x7d'

/-- A character of a handle. -/
def isWord (c : Char) : Bool := c.isAlphanum || c == '_' || c == '-'

/-- A character of an anchor's name. -/
def isAnchor (c : Char) : Bool := !isGap c && !isFlow c && c != '\uFEFF'

/-- A character of a URI. -/
def isUri (c : Char) : Bool :=
  c.isAlphanum || c == '-' || "#;/?:@&=+$,_.!~*\x27()[]%".toList.contains c

/-- A character of a tag's suffix. -/
def isTag (c : Char) : Bool := isUri c && !isFlow c && c != '!'

end LiveConfig.Yaml
