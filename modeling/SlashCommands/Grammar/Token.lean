import SlashCommands.Fault
import SlashCommands.Text.Blank

/-!
# Tokens of a declaration

A declaration text is a sequence of bare words and of arguments in angle or square brackets, with
blanks between them. Comparison signs may stand inside angle brackets, so a `>` closes one only
where the text ends after it or the next bracket opens.
-/

namespace SlashCommands

/-- A word, or the inside of a pair of brackets. -/
inductive Token
  | word (text : List Char)
  | required (inner : List Char)
  | optional (inner : List Char)
deriving DecidableEq

namespace Token

/-- Whether a `>` in front of this rest closes its bracket. -/
def closesAngle (rest : List Char) : Bool :=
  match Text.trimStart rest with
  | [] => true
  | c :: _ => c = '<' || c = '['

/-- Splits at the first `>` that closes the bracket. -/
def splitAngle : List Char → Option (List Char × List Char)
  | [] => none
  | c :: cs =>
    if c = '>' ∧ closesAngle cs then some ([], cs)
    else (splitAngle cs).map fun sides => (c :: sides.1, sides.2)

/-- The brackets of arguments that must and that may be given. -/
def isBracket (c : Char) : Bool :=
  c = '<' || c = '>' || c = '[' || c = ']'

/-- The brackets of arguments that may be given. -/
def isSquare (c : Char) : Bool :=
  c = '[' || c = ']'

theorem splitAngle_length {cs : List Char} {sides : List Char × List Char}
    (h : splitAngle cs = some sides) : sides.2.length < cs.length := by
  induction cs generalizing sides with
  | nil => simp [splitAngle] at h
  | cons c cs ih =>
    unfold splitAngle at h
    split at h
    · cases h; simp
    · obtain ⟨inner, hi, rfl⟩ := Option.map_eq_some_iff.1 h
      have := ih hi
      simp only [List.length_cons]
      omega

theorem splitFirst_length {mark : Char} {cs : List Char} {sides : List Char × List Char}
    (h : Text.splitFirst mark cs = some sides) : sides.2.length < cs.length := by
  induction cs generalizing sides with
  | nil => simp [Text.splitFirst] at h
  | cons c cs ih =>
    unfold Text.splitFirst at h
    split at h
    · cases h; simp
    · obtain ⟨inner, hi, rfl⟩ := Option.map_eq_some_iff.1 h
      have := ih hi
      simp only [List.length_cons]
      omega

theorem length_dropWhile_le (keep : Char → Bool) :
    ∀ cs : List Char, (cs.dropWhile keep).length ≤ cs.length
  | [] => Nat.le_refl _
  | c :: cs => by
    unfold List.dropWhile
    split
    · have := length_dropWhile_le keep cs
      simp only [List.length_cons]
      omega
    · exact Nat.le_refl _

/-- The tokens of a text. -/
def read (cs : List Char) : Except GrammarFault (List Token) :=
  match cs with
  | [] => .ok []
  | c :: rest =>
    if Text.isBlank c then read rest
    else if c = '<' then
      match _h : splitAngle rest with
      | none => .error .unclosedAngle
      | some sides =>
        if sides.1.any isSquare then .error .mismatchedBrackets
        else (read sides.2).map (required sides.1 :: ·)
    else if c = '[' then
      match _h : Text.splitFirst ']' rest with
      | none => .error .unclosedSquare
      | some sides =>
        if sides.1.contains '[' then .error .nestedSquare
        else (read sides.2).map (optional sides.1 :: ·)
    else
      let text := c :: rest.takeWhile fun d => !Text.isBlank d
      if text.any isBracket then .error (.bracketInWord (String.ofList text))
      else (read (rest.dropWhile fun d => !Text.isBlank d)).map (word text :: ·)
termination_by cs.length
decreasing_by
  · simp
  · have := splitAngle_length _h; simp only [List.length_cons]; omega
  · have := splitFirst_length _h; simp only [List.length_cons]; omega
  · have := length_dropWhile_le (fun d => !Text.isBlank d) rest
    simp only [List.length_cons]; omega

/-- The token as written. -/
def render : Token → List Char
  | word text => text
  | required inner => '<' :: inner ++ ['>']
  | optional inner => '[' :: inner ++ [']']

end Token

end SlashCommands
