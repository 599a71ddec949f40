import SlashCommands.Text.Letters

/-!
# Characters and their places

A YAML text means what its columns and lines say, so it is read as a list of characters that know
where they stand. Line breaks of all kinds that mean the same are line feeds here.
-/

namespace SlashCommands.Yaml

/-- A character with its line and column. -/
structure Glyph where
  char : Char
  line : Nat
  column : Nat
deriving DecidableEq, Inhabited

/-- The characters that end a line. -/
def isBreak (c : Char) : Bool :=
  c = '\n' || c = '\u2028' || c = '\u2029'

/-- The blanks within a line. -/
def isBlank (c : Char) : Bool :=
  c = ' ' || c = '\t'

/-- What may stand in a text at all. -/
def isLegal (c : Char) : Bool :=
  let n := c.toNat
  n = 9 || n = 10 || n = 13 || (32 ≤ n && n ≤ 126) || n = 0x85
    || (0xA0 ≤ n && n != 0xFFFE && n != 0xFFFF)

/-- One line feed for each line break that is a plain one. -/
def plainBreaks : List Char → List Char
  | '\x0d' :: '\n' :: cs => '\n' :: plainBreaks cs
  | '\x0d' :: cs => '\n' :: plainBreaks cs
  | '\u0085' :: cs => '\n' :: plainBreaks cs
  | c :: cs => c :: plainBreaks cs
  | [] => []

/-- The characters of a text with their places, counted from a line and column on. -/
def place (line column : Nat) : List Char → List Glyph
  | [] => []
  | c :: cs =>
    ⟨c, line, column⟩ :: if isBreak c then place (line + 1) 0 cs else place line (column + 1) cs

/-- The characters of a text; a byte order mark at its beginning is none of them. -/
def glyphs? (text : String) : Option (List Glyph) :=
  let cs := match text.toList with
    | '\ufeff' :: rest => rest
    | cs => cs
  if cs.all isLegal then some (place 0 0 (plainBreaks cs)) else none

/-- Whether the text ends here or a blank or a line break follows. -/
def atGap : List Glyph → Bool
  | [] => true
  | g :: _ => isBlank g.char || isBreak g.char

/-- Whether a character comes next. -/
def startsWith (c : Char) : List Glyph → Bool
  | [] => false
  | g :: _ => g.char = c

/-- Whether a line that separates documents begins here. -/
def atDocumentMark (gs : List Glyph) : Bool :=
  match gs with
  | a :: b :: c :: rest =>
    a.column = 0 && atGap rest && ((a.char = '-' && b.char = '-' && c.char = '-')
      || (a.char = '.' && b.char = '.' && c.char = '.'))
  | _ => false

/-! ## Folding -/

/-- What was skipped between two pieces of a scalar. -/
inductive Gap
  | none
  | blanks (text : List Char)
  /-- The first line break, if it counts, and the ones after it. -/
  | lines (first : Option Char) (more : List Char)
deriving DecidableEq

namespace Gap

/-- Adds a blank, which does not count once a line break was skipped. -/
def addBlank (gap : Gap) (c : Char) : Gap :=
  match gap with
  | none => blanks [c]
  | blanks text => blanks (text ++ [c])
  | lines first more => lines first more

/-- Adds a line break. The blanks in front of the first one do not count. -/
def addBreak (gap : Gap) (c : Char) : Gap :=
  match gap with
  | lines first more => lines first (more ++ [c])
  | _ => lines (some c) []

/-- Whether a line break was skipped. -/
def hasBreak : Gap → Bool
  | lines .. => true
  | _ => false

/-- What stands for the gap in the value: a single line feed becomes a space, the first of several
is left out. -/
def fold : Gap → List Char
  | none => []
  | blanks text => text
  | lines (some '\n') [] => [' ']
  | lines (some '\n') more => more
  | lines first more => first.toList ++ more

end Gap

end SlashCommands.Yaml
