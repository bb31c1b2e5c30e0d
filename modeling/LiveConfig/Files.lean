import LiveConfig.Kv.Pair
import LiveConfig.Text.Split
import LiveConfig.Text.Utf8

/-!
# Files

The files below a working directory, and the paths that lead to them. A path is followed name by name;
it leads to a file or a folder, or stops where a name is missing, a file is in the way, or a name is too
long. Above the working directory there are folders, but nothing in them is known.
-/

namespace LiveConfig

open Kv (Bytes)

/-- Files with their octets, and folders without any, by the names that lead to them. The folders on
the way to an entry are there too; of entries with the same names the last counts. -/
abbrev Files := List (List String × Option Bytes)

namespace Files

/-- What a path leads to. -/
inductive Found where
  | file (bytes : Bytes)
  | folder

/-- Why a path leads nowhere. -/
inductive Fault where
  | missing
  | notFolder
  | tooLong
  | nullCharacter

/-- The wording of a fault. -/
def Fault.message : Fault → String
  | .missing => "No such file or directory (os error 2)"
  | .notFolder => "Not a directory (os error 20)"
  | .tooLong => "File name too long (os error 36)"
  | .nullCharacter => "file name contained an unexpected NUL byte"

/-- Where a path has led so far: to a file, or to a folder below the working directory, or above it. -/
inductive Spot where
  | file (bytes : Bytes)
  | within (names : List String)
  | outside

/-- The names of a path; empty ones and single points say nothing. -/
def names (path : String) : List String :=
  (Text.split '/' path).filter fun n => n ≠ "" ∧ n ≠ "."

/-- The files with some contents under a path. -/
def ofPaths (entries : List (String × Option Bytes)) : Files :=
  entries.map fun e => (names e.1, e.2)

/-- How many octets a text has. -/
def octets (s : String) : Nat := (Text.Utf8.encode s.toList).length

/-- The most octets that a name may have. -/
def nameLimit : Nat := 255

/-- The most octets that a path may have. -/
def pathLimit : Nat := 4095

/-- What stands under some names. -/
def find? (fs : Files) (names : List String) : Option Spot :=
  match (fs.reverse.find? fun e => e.1 == names).map (·.2) with
  | some (some bytes) => some (.file bytes)
  | _ => if fs.any fun e => names.isPrefixOf e.1 then some (.within names) else none

/-- Goes on by one name. -/
def step (fs : Files) (spot : Spot) (name : String) : Except Fault Spot :=
  match spot with
  | .file _ => .error .notFolder
  | .outside =>
    if name = "" ∨ name = "." ∨ name = ".." then .ok .outside
    else if nameLimit < octets name then .error .tooLong
    else .error .missing
  | .within names =>
    if name = "" ∨ name = "." then .ok (.within names)
    else if name = ".." then .ok (if names.isEmpty then .outside else .within names.dropLast)
    else if nameLimit < octets name then .error .tooLong
    else
      match fs.find? (names ++ [name]) with
      | some spot => .ok spot
      | none => .error .missing

/-- What a path leads to. -/
def follow (fs : Files) (path : String) : Except Fault Found :=
  if path.toList.contains '\x00' then .error .nullCharacter
  else if path = "" then .error .missing
  else if pathLimit < octets path then .error .tooLong
  else
    let start := if path.toList.head? = some '/' then Spot.outside else .within []
    match (Text.split '/' path).foldlM fs.step start with
    | .ok (.file bytes) => .ok (.file bytes)
    | .ok _ => .ok .folder
    | .error fault => .error fault

/-- The octets of the file at a path. -/
def read? (fs : Files) (path : String) : Option Bytes :=
  match fs.follow path with
  | .ok (.file bytes) => some bytes
  | _ => none

/-! ### Paths -/

/-- The path of something inside a folder; a path from the top leads there from everywhere. -/
def join (folder path : String) : String :=
  if path.toList.head? = some '/' ∨ folder = "" then path
  else if folder.toList.getLast? = some '/' then folder ++ path
  else folder ++ "/" ++ path

/-- The name of what a path leads to, if the path ends in one. -/
def lastName? (path : String) : Option String :=
  ((names path).getLast?).filter (· ≠ "..")

/-- What a file's name ends in behind its last point, unless that is its first character. -/
def extension? (path : String) : Option String := do
  let name ← lastName? path
  match (Text.split '.' name).reverse with
  | last :: before :: [] => if before = "" then none else some last
  | last :: _ :: _ :: _ => some last
  | _ => none

/-- The path with more behind its last name. -/
def append (path more : String) : String :=
  let rec ends : List Char → List Char
    | '/' :: rest => ends rest
    | '.' :: '/' :: rest => ends rest
    | cs => cs
  String.ofList (ends path.toList.reverse).reverse ++ more

end Files

end LiveConfig
