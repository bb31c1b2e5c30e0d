import LiveConfig.JsonText.Record

/-!
# JsonText — Shape

What a document has to look like before anything is taken from it. A record may be written as an object
or as a list; in an object what may be null may also be missing, and in a list nothing may.
-/

namespace LiveConfig.JsonText

/-- What a document has to look like: anything, a text, a truth value, a whole number from zero to
`bound`, a list or an object whose parts all look alike, something or null, or a record of fields. -/
inductive Shape where
  | any
  | text
  | bool
  | count (bound : Nat)
  | list (item : Shape)
  | map (item : Shape)
  | maybe (s : Shape)
  | record (fields : List (String × Shape))

namespace Shape

/-- What may also be missing. -/
def isMaybe : Shape → Bool
  | .maybe _ => true
  | _ => false

/-- A number that is whole, from zero to `bound`. -/
def isCount (bound : Nat) (n : Numeral) : Bool :=
  match n.number? with
  | some (.whole k) => 0 ≤ k ∧ k ≤ bound
  | _ => false

mutual

/-- The document looks as it has to. -/
def fits : Shape → JsonText → Bool
  | .any, _ => true
  | .text, j => j.text?.isSome
  | .bool, .bool _ => true
  | .count bound, .number n => isCount bound n
  | .list item, .list js => js.all (fits item)
  | .map item, .object members => members.all fun m => (string? m.1).isSome && fits item m.2
  | .maybe _, .null => true
  | .maybe s, j => fits s j
  | .record fields, .list js => fitsInOrder fields js
  | .record fields, .object members =>
    ((JsonText.object members).fields? (fields.map (·.1))).any (fitsByName fields)
  | _, _ => false

/-- The fields of a record in order. -/
def fitsInOrder : List (String × Shape) → List JsonText → Bool
  | [], [] => true
  | (_, s) :: fields, j :: js => fits s j && fitsInOrder fields js
  | _, _ => false

/-- The fields of a record by name. -/
def fitsByName : List (String × Shape) → Fields → Bool
  | [], _ => true
  | (name, s) :: fields, given =>
    (match given.find? name with
      | some j => fits s j
      | none => isMaybe s) && fitsByName fields given

end

/-- A field of a document that is a record. -/
def field? (fields : List (String × Shape)) (name : String) (j : JsonText) : Option JsonText := do
  (← j.fields? (fields.map (·.1))).find? name

end Shape

end LiveConfig.JsonText
