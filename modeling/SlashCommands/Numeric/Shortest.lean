import SlashCommands.Numeric.Binary64

/-!
# The shortest decimal text of a double

A finite magnitude has an exact decimal expansion, `u · 5 ^ 1074` units of `10 ^ -1074`. Cutting it
after one, two, … seventeen digits leaves two neighbours on that decimal grid; the first grid with a
neighbour that rounds back to the magnitude gives the fewest digits, and of two such neighbours the
nearer one is taken. The text is positional, never with an exponent.
-/

namespace SlashCommands.Binary64

/-- The exact value in units of `10 ^ -1074`. -/
def exactDecimal (magnitude : Nat) : Nat :=
  unitsOf magnitude * Nat.pow 5 1074

/-- A decimal approximation of a magnitude: `digits · 10 ^ cut` units of `10 ^ -1074`. -/
structure Cut where
  digits : Nat
  cut : Nat

/-- The approximation in units of `10 ^ -1074`. -/
def Cut.value (d : Cut) : Nat :=
  d.digits * Nat.pow 10 d.cut

/-- Whether a magnitude is the nearest one to the approximation. -/
def Cut.readsBack (d : Cut) (magnitude : Nat) : Bool :=
  nearestMagnitude d.value (Nat.pow 10 1074) == magnitude

/-- Of two neighbours the one that reads back, the nearer one if both do. -/
def pick (exact : Nat) (below above : Cut) : Bool → Bool → Option Cut
  | true, true => if exact - below.value < above.value - exact then some below else some above
  | true, false => some below
  | false, true => some above
  | false, false => none

/-- The neighbour on the grid of `10 ^ cut` units that reads back. -/
def neighbour (magnitude cut : Nat) : Option Cut :=
  let exact := exactDecimal magnitude
  let below : Cut := ⟨exact / Nat.pow 10 cut, cut⟩
  let above : Cut := ⟨exact / Nat.pow 10 cut + 1, cut⟩
  pick exact below above (below.readsBack magnitude) (above.readsBack magnitude)

/-- Tries one digit more at each step; the exact expansion always reads back. -/
def searchCut (magnitude : Nat) : Nat → Nat → Cut
  | 0, _ => ⟨exactDecimal magnitude, 0⟩
  | tries + 1, cut => (neighbour magnitude cut).getD (searchCut magnitude tries (cut - 1))

/-- The shortest approximation that reads back. -/
def shortestCut (magnitude : Nat) : Cut :=
  if magnitude = 0 then ⟨0, 0⟩
  else searchCut magnitude 17 ((Nat.toDigits 10 (exactDecimal magnitude)).length - 1)

/-- `digits · 10 ^ -places` with a point, without zeros at the end of the fraction. -/
def positional (digits places : Nat) : List Char :=
  let text := Nat.toDigits 10 digits
  let padded := List.replicate (places + 1 - text.length) '0' ++ text
  let whole := padded.take (padded.length - places)
  let fraction := (padded.drop (padded.length - places)).reverse.dropWhile (· = '0')
  if fraction.isEmpty then whole else whole ++ '.' :: fraction.reverse

/-- The sign, written only when it is a minus. -/
def signText (x : Binary64) : List Char :=
  if x.negative then ['-'] else []

/-- The fewest digits that read back, in positional notation. -/
def chars (x : Binary64) : List Char :=
  if x.isNaN then "NaN".toList
  else if !x.isFinite then x.signText ++ "inf".toList
  else
    let d := shortestCut x.magnitude
    x.signText ++ (if 1074 ≤ d.cut then Nat.toDigits 10 (d.digits * Nat.pow 10 (d.cut - 1074))
      else positional d.digits (1074 - d.cut))

/-- The number in the fewest digits. -/
def text (x : Binary64) : String :=
  String.ofList x.chars

/-- A whole number with all its digits and one decimal place. -/
def wholeText (x : Binary64) : String :=
  String.ofList (x.signText ++ Nat.toDigits 10 (x.units / Nat.pow 2 1074) ++ ['.', '0'])

end SlashCommands.Binary64
