import LiveConfig.Keyed
import LiveConfig.Number.Double

/-!
# Value

A configuration value and the tree that tables make of them.
-/

namespace LiveConfig

/-- The four sizes in which a whole number is held. -/
inductive Width where
  | i64
  | u64
  | i128
  | u128
deriving DecidableEq

namespace Width

/-- The least number of the size. -/
def lo : Width → Int
  | .i64 => -0x8000000000000000
  | .u64 => 0
  | .i128 => -0x80000000000000000000000000000000
  | .u128 => 0

/-- The greatest number of the size. -/
def hi : Width → Int
  | .i64 => 0x7fffffffffffffff
  | .u64 => 0xffffffffffffffff
  | .i128 => 0x7fffffffffffffffffffffffffffffff
  | .u128 => 0xffffffffffffffffffffffffffffffff

/-- The size can hold `n`. -/
def Holds (w : Width) (n : Int) : Prop := w.lo ≤ n ∧ n ≤ w.hi

instance (w : Width) (n : Int) : Decidable (w.Holds n) :=
  inferInstanceAs (Decidable (_ ∧ _))

end Width

/-- A value of the configuration. -/
inductive Value where
  | nil
  | bool (b : Bool)
  | int (w : Width) (n : Int) (fits : w.Holds n)
  | float (x : Double)
  | text (s : String)
  | list (items : List Value)
  | table (entries : List (String × Value))

/-- A table of values by key. -/
abbrev Tree := Keyed Value

namespace Value

instance : Inhabited Value := ⟨.nil⟩

/-- A whole number in the size `w`, when it can hold it. -/
def int? (w : Width) (n : Int) : Option Value :=
  if h : w.Holds n then some (.int w n h) else none

def isNil : Value → Bool
  | .nil => true
  | _ => false

def isTable : Value → Bool
  | .table _ => true
  | _ => false

end Value

namespace Tree

/-- The value at the end of a path of keys through nested tables. -/
def at? (t : Tree) : List String → Option Value
  | [] => none
  | [key] => t.find? key
  | key :: rest =>
    match t.find? key with
    | some (.table children) => at? children rest
    | _ => none

end Tree

end LiveConfig
