import LiveConfig.Number.Numeral
import LiveConfig.Number.Shortest
import LiveConfig.Text.Case
import LiveConfig.Value

/-!
# Value — Coerce

Reading a scalar as another kind of scalar. A reading fails with `none`: nil, tables and lists are
never read as a scalar, and a text only if it spells a value of the wanted kind.
-/

namespace LiveConfig.Value

/-- The words that mean yes and no wherever a number is wanted, in any case. -/
def word? (s : String) : Option Bool :=
  let w := Text.lower s
  if w = "true" ∨ w = "on" ∨ w = "yes" then some true
  else if w = "false" ∨ w = "off" ∨ w = "no" then some false
  else none

/-- The text of a scalar. -/
def toText? : Value → Option String
  | .text s => some s
  | .bool b => some (if b then "true" else "false")
  | .int _ n _ => some n.repr
  | .float x => some x.text
  | _ => none

/-- A scalar as yes or no. A number is yes unless it is zero. -/
def toBool? : Value → Option Bool
  | .bool b => some b
  | .int _ n _ => some (n != 0)
  | .float x => some (!x.isZero)
  | .text s =>
    let w := Text.lower s
    if w = "1" then some true else if w = "0" then some false else word? s
  | _ => none

/-- A scalar as a whole number between `lo` and `hi`, where `digits` reads a text. -/
def toWhole? (lo hi : Int) (digits : List Char → Option Int) : Value → Option Int
  | .int _ n _ => if lo ≤ n ∧ n ≤ hi then some n else none
  | .bool b => some (if b then 1 else 0)
  | .float x => some (x.toIntWithin lo hi)
  | .text s =>
    match word? s with
    | some b => some (if b then 1 else 0)
    | none => digits s.toList
  | _ => none

/-- A scalar as a whole number of 64 bits with sign. -/
def toInt64? : Value → Option Int := toWhole? Width.i64.lo Width.i64.hi Numeral.int64?

/-- A scalar as a whole number of 64 bits without sign. -/
def toUnsigned64? : Value → Option Int :=
  toWhole? Width.u64.lo Width.u64.hi fun cs => (Numeral.unsigned64? cs).map fun n => (n : Int)

/-- A scalar as a double. -/
def toFloat? : Value → Option Double
  | .float x => some x
  | .int _ n _ => some (.ofInt n)
  | .bool b => some (.ofInt (if b then 1 else 0))
  | .text s =>
    match word? s with
    | some b => some (.ofInt (if b then 1 else 0))
    | none => Numeral.double? s.toList
  | _ => none

end LiveConfig.Value
