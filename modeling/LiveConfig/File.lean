import LiveConfig.Error
import LiveConfig.Files
import LiveConfig.JsonText
import LiveConfig.Text.Escape
import LiveConfig.Toml
import LiveConfig.Yaml
import LiveConfig.Tree.Place

/-!
# File

A file as a source of configuration: one that is named by its path, or the first of a name that is found
in some folders. How it is written shows by its extension. Its keys are places in the tree.
-/

namespace LiveConfig

/-- Which file is read. -/
inductive File where
  | exact (path : String)
  | searched (folder name : String)

namespace File

/-- How a file is written. -/
inductive Format where
  | yaml
  | toml
  | json

/-- All extensions, in the order in which they are tried. -/
def extensions : List (String × Format) :=
  [("yaml", .yaml), ("yml", .yaml), ("toml", .toml), ("json", .json)]

def name : File → String
  | .exact path => "file:" ++ path
  | .searched _ name => "file:" ++ name

/-! ### Finding -/

/-- The folders in which a file is searched, in order. -/
def folders (folder : String) : List String := [folder, ".", "./configs"]

/-- The path of the file. -/
def resolve (fs : Files) : File → Except Error String
  | .exact path =>
    match Files.extension? path with
    | none => .error (.format ("Unable to determine file format for: " ++ path))
    | some ext =>
      if (extensions.lookup ext).isNone then
        .error (.format
          ("Unsupported file extension: " ++ ext ++ ". Supported: .yaml, .yml, .toml, .json"))
      else
        match fs.follow path with
        | .ok _ => .ok path
        | .error .missing => .error (.format ("Configuration file not found: " ++ path))
        | .error fault => .error (.io fault.message)
  | .searched folder name =>
    let candidates := (folders folder).flatMap fun d =>
      extensions.map fun e => Files.join d (name ++ "." ++ e.1)
    match candidates.find? fun path => (fs.read? path).isSome with
    | some path => .ok path
    | none => .error (.format ("Configuration file '" ++ name ++ "' not found in [" ++
        String.intercalate ", " ((folders folder).map Text.quoted) ++ "]"))

/-! ### Reading -/

/-- The tree that a text of a format spells. -/
def Format.parse? (f : Format) (bytes : Kv.Bytes) : Option Tree := do
  let text ← Text.Utf8.decode? bytes
  match f with
  | .json => (JsonText.parse? bytes).bind (JsonText.tree? JsonText.signed JsonText.depthLimit)
  | .toml => Toml.parse? text
  | .yaml =>
    match ← Yaml.parse? text with
    | .table t => some t
    | _ => none

/-- What is read for a path: the file there, or, where a folder has that path, a file beside it with
one more extension. -/
def content? (fs : Files) (path : String) : Option (Format × Kv.Bytes) :=
  match fs.read? path with
  | some bytes => do return (← extensions.lookup (← Files.extension? path), bytes)
  | none => extensions.findSome? fun e =>
    (fs.read? (Files.append path ("." ++ e.1))).map fun bytes => (e.2, bytes)

/-- The tree of the file. -/
def load (fs : Files) (f : File) : Except Error Tree := do
  let path ← f.resolve fs
  match (content? fs path).bind fun c => c.1.parse? c.2 with
  | some t => .ok (Tree.ofPlaces t)
  | none => .error (.format ("Failed to load " ++ path))

end File

end LiveConfig
