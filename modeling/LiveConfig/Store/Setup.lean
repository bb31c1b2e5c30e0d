import LiveConfig.Environment
import LiveConfig.File
import LiveConfig.Store

/-!
# Store — Setup

Where a base is read from: a file is searched for the defaults, and the environment goes over them.
-/

namespace LiveConfig

/-- The folder in which the file is searched first, the name of the file without its extension, how the
names of variables start, and what stands between the segments of one. -/
structure BaseOptions where
  folder : String
  fileName : String
  envStart : Option String
  envSeparator : String

namespace BaseOptions

/-- A file named `config`, and all variables. -/
def standard : BaseOptions := ⟨"config", "config", none, "__"⟩

/-- The options for a file of another name in another folder. -/
def ofFile (folder fileName : String) : BaseOptions :=
  { standard with folder := folder, fileName := fileName }

/-- The defaults and the environment, in any spelling of the keys. -/
def read (o : BaseOptions) (files : Files) (vars : List (Kv.Bytes × Kv.Bytes)) :
    Except Error (Tree × Tree) := do
  let defaults ← (File.searched o.folder o.fileName).load files
  return (defaults, (Environment.mk o.envStart o.envSeparator).load vars)

end BaseOptions

end LiveConfig
