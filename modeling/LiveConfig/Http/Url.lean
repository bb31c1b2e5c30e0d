import LiveConfig.Text.Escape
import LiveConfig.Text.Split

/-!
# Http — Url

Addresses on the web. Reading one is lenient: blanks around it and line ends in it are skipped, a
backslash is a slash, names that are points lead up or nowhere, and what may not stand in an address is
escaped.
-/

namespace LiveConfig.Http

/-- Where a request goes: the host, the names of the path, and the query behind it. -/
structure Url where
  host : String
  path : List String
  query : Option String

namespace Url

/-! ### Characters -/

/-- A printed character of ASCII. -/
def isPrinted (c : Char) : Bool := '!' ≤ c && c ≤ '~'

/-- A character that may stand in a path. -/
def isPath (c : Char) : Bool := isPrinted c && !("\x22#<>?\x60\x7b\x7d".toList.contains c)

/-- A character that may stand in a single name that is added to a path. -/
def isName (c : Char) : Bool := isPath c && c != '/' && c != '\\' && c != '%'

/-- A character that may stand in a query. -/
def isQuery (c : Char) : Bool := isPrinted c && !("\x22#<>\x27".toList.contains c)

/-- A character that may stand in the name or value of a parameter. -/
def isForm (c : Char) : Bool := c.isAlphanum || c == '*' || c == '-' || c == '.' || c == '_'

/-- A character that separates the names of a path. -/
def isSlash (c : Char) : Bool := c == '/' || c == '\\'

/-- A character that is skipped wherever it stands. -/
def isSkipped (c : Char) : Bool := c == '\t' || c == '\n' || c == '\r'

/-! ### Paths -/

/-- The name without escaped points. -/
def unescapedPoints : List Char → List Char
  | '%' :: '2' :: 'e' :: rest | '%' :: '2' :: 'E' :: rest => '.' :: unescapedPoints rest
  | c :: rest => c :: unescapedPoints rest
  | [] => []

/-- The name of a drive, which is never left. -/
def isDrive : List Char → Bool
  | [letter, c] => letter.isAlpha && (c == ':' || c == '|')
  | _ => false

/-- The names that a path comes to, the last first, where each name of `names` but the last is followed
by a slash. -/
def walk (above : List (List Char)) : List (List Char) → List (List Char)
  | [] => above
  | name :: rest =>
    let points := unescapedPoints name
    let above :=
      if points = ['.', '.'] then
        (if (above.head?.map isDrive).getD false then above else above.drop 1)
      else if points = ['.'] then above
      else name :: above
    if rest.isEmpty && (points = ['.'] || points = ['.', '.']) then [] :: above
    else walk above rest

/-- The names of a path behind its first slash. -/
def pathNames (cs : List Char) : List String :=
  let names := Text.pieces '/' (cs.map fun c => if isSlash c then '/' else c)
  ((walk [] (names.map (Text.percentEncode isPath))).reverse).map String.ofList

/-- Adds a name to the end of a path, where points that stand alone say nothing. Points that appear
once line ends are skipped leave the end of the path open, and two of them take the last name away;
then the next name comes behind a second slash. -/
def extendBy (path : List String) (name : String) : List String :=
  if name = "." ∨ name = ".." then path
  else
    let cs := name.toList.filter (!isSkipped ·)
    let path := if path = [""] then [] else path
    if cs = ['.'] then path ++ [""]
    else if cs = ['.', '.'] then
      if (path.getLast?.map fun n => isDrive n.toList).getD false then path ++ [""]
      else path.dropLast ++ [""]
    else path ++ [String.ofList (Text.percentEncode isName cs)]

/-- Adds names to the end of the path. -/
def extend (u : Url) (names : List String) : Url := { u with path := names.foldl extendBy u.path }

/-! ### Queries -/

/-- The form in which a parameter is written. -/
def form (s : String) : List Char :=
  s.toList.flatMap fun c => if c = ' ' then ['+'] else Text.percentEncode isForm [c]

/-- Adds a parameter. -/
def withParam (u : Url) (name value : String) : Url :=
  let query := u.query.getD ""
  let sep := if query = "" then "" else "&"
  { u with query := some (query ++ sep ++ String.ofList (form name ++ '=' :: form value)) }

/-! ### Whole addresses -/

/-- A control character or a space. -/
def isEdge (c : Char) : Bool := c ≤ ' '

/-- The scheme in front, in lower case, and what follows its colon. -/
def scheme? (cs : List Char) : Option (String × List Char) :=
  match cs.dropWhile (· != ':') with
  | _ :: rest => some (String.ofList ((cs.takeWhile (· != ':')).map Char.toLower), rest)
  | [] => none

/-- The number of a service at a host; there may be none. -/
def isServiceNumber (cs : List Char) : Bool :=
  cs.all Char.isDigit && cs.foldl (fun n c => n * 10 + (c.toNat - '0'.toNat)) 0 ≤ 0xFFFF

/-- The host and what follows it, behind the name and password of a user. -/
def behindUser (cs : List Char) : List Char := (cs.reverse.takeWhile (· != '@')).reverse

/-- The address that a text spells. What stands behind a number sign is left out. -/
def parse? (s : String) : Option Url := do
  let cs := ((s.toList.dropWhile isEdge).reverse.dropWhile isEdge).reverse.filter (!isSkipped ·)
  let (scheme, rest) ← scheme? cs
  if scheme ≠ "http" ∧ scheme ≠ "https" then none
  else
    let rest := rest.dropWhile isSlash
    let isHost (c : Char) := !isSlash c && c != '?' && c != '#'
    let host := behindUser (rest.takeWhile isHost)
    if host.isEmpty || !isServiceNumber ((host.dropWhile (· != ':')).drop 1) then none
    else
      let rest := (rest.dropWhile isHost).takeWhile (· != '#')
      let path := rest.takeWhile (· != '?')
      let query :=
        match rest.dropWhile (· != '?') with
        | _ :: query => some (String.ofList (Text.percentEncode isQuery query))
        | [] => none
      return ⟨String.ofList host, pathNames (path.drop 1), query⟩

/-- The path and query, as a request names them. -/
def target (u : Url) : String :=
  "/" ++ String.intercalate "/" u.path ++ ((u.query.map ("?" ++ ·)).getD "")

end Url

end LiveConfig.Http
