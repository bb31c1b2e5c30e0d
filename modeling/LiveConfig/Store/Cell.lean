import LiveConfig.Error

/-!
# Store — Cell

A place for the one store of a process. Only the first initialisation runs; it leaves its store in
the cell when it succeeds, and the cell empty for good when it fails.
-/

namespace LiveConfig

/-- A cell: whether an initialisation was begun, and what it left. -/
structure Cell (α : Type) where
  started : Bool
  held : Option α

namespace Cell

variable {α : Type}

def empty : Cell α := ⟨false, none⟩

/-- Begins an initialisation, which may go on only if it is the first one. -/
def begin (c : Cell α) : Except Error (Cell α) :=
  if c.started then .error .alreadyInitialized else .ok { c with started := true }

/-- The initialisation that was begun ends. A cell that holds something keeps it. -/
def finish (c : Cell α) (outcome : Except Error α) : Except Error α × Cell α :=
  match outcome with
  | .error e => (.error e, c)
  | .ok a =>
    match c.held with
    | none => (.ok a, { c with held := some a })
    | some _ => (.error .alreadyInitialized, c)

/-- Begins an initialisation and ends it at once. -/
def init (c : Cell α) (outcome : Except Error α) : Except Error α × Cell α :=
  match c.begin with
  | .ok begun => begun.finish outcome
  | .error e => (.error e, c)

/-- What the cell holds. -/
def get (c : Cell α) : Except Error α :=
  match c.held with
  | some a => .ok a
  | none => .error .notInitialized

end Cell

end LiveConfig
