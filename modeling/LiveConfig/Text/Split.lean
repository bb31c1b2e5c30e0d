import LiveConfig.Text.Classes

/-!
# Text — Split

Cutting a text at every occurrence of one character, and joining pieces again. A text without the
character is one piece, and the empty text is one empty piece. What stands at the ends of a text can
be cut off: a given start, one character, or all blanks.
-/

namespace LiveConfig.Text

/-- The pieces between the occurrences of `sep`. -/
def pieces (sep : Char) : List Char → List (List Char)
  | [] => [[]]
  | c :: rest =>
    if c = sep then [] :: pieces sep rest
    else
      match pieces sep rest with
      | [] => [[c]]
      | first :: others => (c :: first) :: others

/-- The pieces with `sep` between every two of them. -/
def joined (sep : Char) : List (List Char) → List Char
  | [] => []
  | [last] => last
  | first :: rest => first ++ sep :: joined sep rest

/-- `pieces` on strings. -/
def split (sep : Char) (s : String) : List String :=
  (pieces sep s.toList).map String.ofList

/-- The rest of a text after `start`, when it starts so. -/
def afterStart? {α : Type} [DecidableEq α] : (start : List α) → List α → Option (List α)
  | [], rest => some rest
  | _ :: _, [] => none
  | a :: start, b :: rest => if a = b then afterStart? start rest else none

/-- The text without the characters `c` it ends with. -/
def dropEndWhile (c : Char) (cs : List Char) : List Char :=
  (cs.reverse.dropWhile (· == c)).reverse

/-- The text without the blanks it starts with. -/
def trimStart (cs : List Char) : List Char := cs.dropWhile isBlank

/-- The text without the blanks it ends with. -/
def trimEnd (cs : List Char) : List Char := (cs.reverse.dropWhile isBlank).reverse

/-- The text without the blanks at either end. -/
def trim (cs : List Char) : List Char := trimEnd (trimStart cs)

end LiveConfig.Text
