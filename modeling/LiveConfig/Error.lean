/-!
# Error

Everything that can go wrong when configuration is read, written or watched, with its wording, and
what a source answers that can only be read (`ReadOnly`).
-/

namespace LiveConfig

/-- Why an operation failed. -/
inductive Error where
  /-- The local base layer could not be read or parsed. -/
  | format (reason : String)
  /-- A source failed to return its snapshot. -/
  | sourceRead (source reason : String)
  /-- The source does not offer the operation; callers skip it. -/
  | unsupported
  /-- Registering for live updates failed. -/
  | watch (reason : String)
  /-- A subscriber failed or refused to update. -/
  | subscriberUpdate (name reason : String)
  /-- One key could not be written. -/
  | write (key reason : String)
  /-- A value has no form in the backing store. -/
  | encode (reason : String)
  /-- The backing store could not be reached or answered badly. -/
  | client (reason : String)
  /-- The one store of a process was initialised twice. -/
  | alreadyInitialized
  /-- The one store of a process was used too early. -/
  | notInitialized
  /-- Several independent operations failed. -/
  | multiple (errors : List Error)
  /-- The file system failed. -/
  | io (reason : String)

namespace Error

mutual

/-- The wording of an error. -/
def message : Error → String
  | .format reason => "Failed to load base configuration: " ++ reason
  | .sourceRead source reason =>
    "Failed to read configuration from source '" ++ source ++ "': " ++ reason
  | .unsupported => "Operation not supported by configuration source"
  | .watch reason => "Configuration watch error: " ++ reason
  | .subscriberUpdate name reason =>
    "Failed to update configuration for '" ++ name ++ "': " ++ reason
  | .write key reason => "Failed to save key '" ++ key ++ "': " ++ reason
  | .encode reason => "Failed to encode configuration value: " ++ reason
  | .client reason => "Backing store client error: " ++ reason
  | .alreadyInitialized => "Configuration store is already initialized"
  | .notInitialized => "Configuration store is not initialized"
  | .multiple errors => errors.length.repr ++ " errors occurred:" ++ numbered 1 errors
  | .io reason => "IO error: " ++ reason

/-- One line per error, numbered from `n`. -/
def numbered (n : Nat) : List Error → String
  | [] => ""
  | e :: rest => "\n  " ++ n.repr ++ ". " ++ e.message ++ numbered (n + 1) rest

end

/-- The operation is not offered, which callers take for "skip". -/
def isUnsupported : Error → Bool
  | .unsupported => true
  | _ => false

/-- Several failures as one outcome: success when there is none, a single one as it is. -/
def collapse : List Error → Except Error Unit
  | [] => .ok ()
  | [e] => .error e
  | errors => .error (.multiple errors)

end Error

/-! ### What a source answers that can only be read -/

namespace ReadOnly

/-- It takes no data. -/
def set : Except Error Unit := .error .unsupported

/-- It offers no live updates. -/
def watch : Except Error Unit := .error .unsupported

/-- There is nothing to close. -/
def close : Except Error Unit := .ok ()

end ReadOnly

end LiveConfig
