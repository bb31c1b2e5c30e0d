/-!
# Text — Scan

Reading a text piece by piece: a scanner takes what it wants off the front of the characters that are
left, or fails. Where two scanners are tried in order, the second starts where the first did.
-/

namespace LiveConfig.Text

/-- A scanner of an `α`. -/
abbrev Scan (α : Type) := StateT (List Char) Option α

namespace Scan

variable {α : Type}

/-- The next character, which stays where it is. -/
def peek? : Scan (Option Char) := do return (← get).head?

/-- The next character, if it is one of the wanted. -/
def satisfy (p : Char → Bool) : Scan Char := fun cs =>
  match cs with
  | c :: rest => if p c then some (c, rest) else none
  | [] => none

/-- One character. -/
def char (c : Char) : Scan Unit := do let _ ← satisfy (· == c)

/-- Several characters in a row. -/
def chars : List Char → Scan Unit
  | [] => pure ()
  | c :: rest => do char c; chars rest

/-- All characters in front that are wanted. -/
def while_ (p : Char → Bool) : Scan (List Char) := fun cs => some (cs.takeWhile p, cs.dropWhile p)

/-- The same, but one at least. -/
def while1 (p : Char → Bool) : Scan (List Char) := do
  let cs ← while_ p
  if cs.isEmpty then failure else return cs

/-- So many characters that are wanted. -/
def exactly (n : Nat) (p : Char → Bool) : Scan (List Char) :=
  match n with
  | 0 => pure []
  | n + 1 => do return (← satisfy p) :: (← exactly n p)

/-- What a scanner finds, if it finds something. -/
def option (s : Scan α) : Scan (Option α) := fun cs =>
  match s cs with
  | some (a, rest) => some (some a, rest)
  | none => some (none, cs)

/-- What a scanner finds again and again, `fuel` times at most. -/
def repeated (s : Scan α) : Nat → Scan (List α)
  | 0 => pure []
  | fuel + 1 => fun cs =>
    match s cs with
    | some (a, rest) => (repeated s fuel rest).map fun (as, rest) => (a :: as, rest)
    | none => some ([], cs)

/-- What a scanner finds again and again, as often as it finds something and characters are left. -/
def many (s : Scan α) : Scan (List α) := fun cs => repeated s cs.length cs

/-- Nothing is left. -/
def done : Scan Unit := fun cs => if cs.isEmpty then some ((), []) else none

/-- What a scanner makes of a whole text. -/
def run? (s : Scan α) (cs : List Char) : Option α :=
  (s cs).bind fun (a, rest) => if rest.isEmpty then some a else none

end Scan

end LiveConfig.Text
