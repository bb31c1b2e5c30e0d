import LiveConfig.Duration.Spans
import LiveConfig.JsonText

/-!
# JsonText — Record

Reading the fields of a record from a document. An object names them, each once at most, and may hold
more that nobody asks about; a list has them in order, and none behind them.
-/

namespace LiveConfig.JsonText

/-- The fields of a record that are given. -/
structure Fields where
  given : List (String × JsonText)

/-- The fields of a record whose fields have some names, in order. -/
def fields? (names : List String) : JsonText → Option Fields
  | .object members => do
    let all ← members.mapM fun m => do return (← string? m.1, m.2)
    let given := all.filter fun m => names.contains m.1
    if (given.map (·.1)).Nodup then return ⟨given⟩ else none
  | .list items => if items.length ≤ names.length then some ⟨names.zip items⟩ else none
  | _ => none

namespace Fields

/-- A field that is given. -/
def find? (f : Fields) (name : String) : Option JsonText := f.given.lookup name

/-- A text, or another one where it is not given. -/
def textOr? (f : Fields) (name other : String) : Option String :=
  match f.find? name with
  | none => some other
  | some j => j.text?

/-- A text that may be missing or null. -/
def optionalText? (f : Fields) (name : String) : Option (Option String) :=
  match f.find? name with
  | none => some none
  | some .null => some none
  | some j => j.text?.map some

/-- A duration that is spelled, or another one where it is not given. -/
def durationOr? (f : Fields) (name : String) (other : Duration) : Option Duration :=
  match f.find? name with
  | none => some other
  | some j => j.text?.bind Duration.parse?

end Fields

end LiveConfig.JsonText
