import LiveConfig.Error
import LiveConfig.JsonText

/-!
# Secrets

A bundle of secrets as a source of configuration. It is one JSON object at a path below a mount, and is
read whole; an empty one is taken for a mistake.
-/

namespace LiveConfig

/-- Where the bundle is. -/
structure Secrets where
  mount : String
  path : String

namespace Secrets

/-- The mount and the path, as errors tell them. -/
def place (s : Secrets) : String := s.mount ++ "/" ++ s.path

def name (s : Secrets) : String := "secrets:" ++ s.place

/-- The tree of a bundle. -/
def bundle? (j : JsonText) : Option Tree := j.tree? JsonText.widest JsonText.depthLimit

/-- What the source reads, where the store answers with the tree of a bundle. -/
def get (s : Secrets) (answer : Except Error Tree) : Except Error Tree :=
  match answer with
  | .ok [] => .error (.client ("secret bundle at '" ++ s.place ++ "' is empty"))
  | answer => answer

/-- A store that holds one document answers with it, if that is a bundle. -/
def stored (document : List UInt8) : Except Error Tree :=
  match (JsonText.parse? document).bind bundle? with
  | some t => .ok t
  | none => .error (.client "not an object")

end Secrets

end LiveConfig
