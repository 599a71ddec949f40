/-!
# Blank characters, trimming and words

`isBlank` is the White_Space property. `trim` drops blanks at both ends, `splitWhere` cuts a text at
the characters a test picks out, and `words` are the non-empty pieces between blanks.
-/

namespace SlashCommands.Text

/-- The white space of Unicode. -/
def isBlank (c : Char) : Bool :=
  let n := c.toNat
  (9 ≤ n && n ≤ 13) || n == 0x20 || n == 0x85 || n == 0xA0 || n == 0x1680
    || (0x2000 ≤ n && n ≤ 0x200A) || n == 0x2028 || n == 0x2029 || n == 0x202F
    || n == 0x205F || n == 0x3000

/-- The text without the blanks at its beginning. -/
def trimStart (cs : List Char) : List Char :=
  cs.dropWhile isBlank

/-- The text without the blanks at its end. -/
def trimEnd (cs : List Char) : List Char :=
  (cs.reverse.dropWhile isBlank).reverse

/-- The text without the blanks around it. -/
def trim (cs : List Char) : List Char :=
  trimEnd (trimStart cs)

/-- The pieces between the characters that `cut` picks out: one more than there are of those. -/
def splitWhere (cut : Char → Bool) : List Char → List (List Char)
  | [] => [[]]
  | c :: cs =>
    if cut c then [] :: splitWhere cut cs
    else match splitWhere cut cs with
      | [] => [[c]]
      | piece :: pieces => (c :: piece) :: pieces

/-- The pieces of a text between blanks. -/
def words (cs : List Char) : List (List Char) :=
  (splitWhere isBlank cs).filter fun piece => !piece.isEmpty

/-- Cuts at the first `mark`, which belongs to neither side. -/
def splitFirst (mark : Char) : List Char → Option (List Char × List Char)
  | [] => none
  | c :: cs =>
    if c = mark then some ([], cs)
    else (splitFirst mark cs).map fun sides => (c :: sides.1, sides.2)

/-- `trim` for a string. -/
def trimmed (text : String) : String :=
  String.ofList (trim text.toList)

/-- `words` for a string. -/
def wordsOf (text : String) : List String :=
  (words text.toList).map String.ofList

/-- Whether a text holds nothing but blanks. -/
def isBlankText (text : String) : Bool :=
  text.toList.all isBlank

end SlashCommands.Text
