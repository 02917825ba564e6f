import OnceProxy.Text.Blank

/-!
# Comma lists

Lists of items between commas. Blanks around an item and items of nothing else do not count.
-/

namespace OnceProxy.Text

/-- The pieces of a text between its commas; a text without a comma is one piece. -/
def splitCommas : List Char → List (List Char)
  | [] => [[]]
  | c :: cs =>
    match splitCommas cs with
    | [] => [[c]]
    | p :: ps => if c = ',' then [] :: p :: ps else (c :: p) :: ps

/-- The items of a comma list: trimmed, and dropped when nothing is left. -/
def listItems (cs : List Char) : List (List Char) :=
  ((splitCommas cs).map trimChars).filter (! ·.isEmpty)

/-- The items of a comma list held in a string. -/
def commaList (s : String) : List String :=
  (listItems s.toList).map String.ofList

end OnceProxy.Text
