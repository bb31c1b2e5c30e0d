import LiveConfig.Kv.Path
import LiveConfig.Kv.Watch

/-!
# Kv — Source

A subtree of a key/value store as a source of configuration: reading it folds a listing of its root,
writing to it creates the keys that are missing and tries every one of them, whatever the others do.
-/

namespace LiveConfig.Kv

/-- A source at one root path, without separators at its end. -/
structure Source where
  root : String
  options : WatchOptions
  closed : Bool

namespace Source

def ofRoot (root : String) (options : WatchOptions) : Source := ⟨trimRoot root, options, false⟩

def name (s : Source) : String := "kv:" ++ s.root

/-- What is scanned: the root with its separator, so that `svc` does not find `svc2/x`. -/
def scanRoot (s : Source) : String := s.root ++ separator.toString

/-- The tree of a listing, and the pairs that were dropped. -/
def read (s : Source) (l : Listing) : Tree × List Dropped := fold s.root l.pairs

/-- No watch starts on a closed source. -/
def closedError (s : Source) : Error := .watch ("source '" ++ s.name ++ "' is closed")

/-- The first scan of a watch failed. -/
def registrationError (s : Source) (e : Error) : Error :=
  .watch ("prefix '" ++ s.root ++ "': " ++ e.message)

variable {σ : Type}

/-- Creates each key unless it is there, and returns the failures, each told with its key. -/
def writeAll (create : String → Bytes → StateM σ (Except Error Bool)) :
    List (String × Bytes) → StateM σ (List Error)
  | [] => pure []
  | (key, value) :: rest => do
    let outcome ← create key value
    let failures ← writeAll create rest
    match outcome with
    | .ok _ => pure failures
    | .error e => pure (.write key e.message :: failures)

/-- Writes a tree. A tree that cannot be encoded is not written at all. -/
def write (s : Source) (create : String → Bytes → StateM σ (Except Error Bool)) (t : Tree) :
    StateM σ (Except Error Unit) :=
  match flatten s.root t with
  | .error e => pure (.error e)
  | .ok entries => Error.collapse <$> writeAll create entries

end Source

end LiveConfig.Kv
