/-!
# Edit distance

The least number of inserted, removed and replaced characters that turns one text into another, row
by row: the row of a text holds its distances to every start of the other.
-/

namespace SlashCommands.Text

/-- The rest of the row below `diagonal :: above`, from the cell `left` on. -/
def nextCells (c : Char) (left diagonal : Nat) : List Nat → List Char → List Nat
  | up :: above, d :: target =>
    let cell := min (min (left + 1) (up + 1)) (diagonal + if c = d then 0 else 1)
    cell :: nextCells c cell up above target
  | _, _ => []

/-- The distances after one more character of the source. -/
def nextRow (target : List Char) (row : List Nat) (c : Char) : List Nat :=
  match row with
  | [] => []
  | first :: above => (first + 1) :: nextCells c (first + 1) first above target

/-- The fewest characters to insert, delete or replace that make one text of the other. -/
def editDistance (source target : List Char) : Nat :=
  (source.foldl (nextRow target) (List.range (target.length + 1))).getLast?.getD 0

end SlashCommands.Text
