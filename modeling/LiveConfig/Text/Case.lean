import LiveConfig.Text.CaseTable
import LiveConfig.Text.Classes

/-!
# Text — Case

Lower-casing by the full Unicode rules. One letter needs its neighbours: a capital sigma becomes the
final sigma where a word ends. All other characters are lower-cased one by one, and a character
without a lower-case form stays.
-/

namespace LiveConfig.Text

namespace CaseRun

/-- `n` is one of the characters of the run. -/
def covers (r : CaseRun) (n : Nat) : Bool :=
  r.first ≤ n && n ≤ r.last && (n - r.first) % r.step == 0

/-- The lower-case form of the member `n` of the run. -/
def apply (r : CaseRun) (n : Nat) : Nat := r.lower + (n - r.first)

end CaseRun

/-- The lower-case form of one character on its own. -/
def lowerChar (c : Char) : List Char :=
  if c.toNat < 0x80 then [c.toLower]
  else if c = 'İ' then ['i', '\u0307']
  else
    match caseRuns.find? (·.covers c.toNat) with
    | some r => [Char.ofNat (r.apply c.toNat)]
    | none => [c]

/-- Going away from a letter, the first character that is not passed over is a cased letter. -/
def meetsCased (cs : List Char) : Bool :=
  match cs.dropWhile isCaseIgnorable with
  | [] => false
  | c :: _ => isCased c

/-- Lower-cases a text of which `back` is what stands before it, read backwards. -/
def lowerFrom (back : List Char) : List Char → List Char
  | [] => []
  | c :: rest =>
    (if c = 'Σ' then [if meetsCased back && !meetsCased rest then 'ς' else 'σ'] else lowerChar c) ++
      lowerFrom (c :: back) rest

/-- The lower-case form of a text. -/
def lower (s : String) : String := String.ofList (lowerFrom [] s.toList)

end LiveConfig.Text
