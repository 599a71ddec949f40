import SlashCommands.Document.Yaml.Glyph

/-!
# Literal and folded scalars

A scalar under a `|` or a `>` consists of the lines that are indented deep enough. Literal lines are
kept, folded ones joined unless one of them is indented further; what happens to the line breaks at
the end is said in the header.
-/

namespace SlashCommands.Yaml

/-- What becomes of the line breaks at the end of a scalar. -/
inductive Chomping
  | strip
  | clip
  | keep
deriving DecidableEq

/-- What stands behind the `|` or `>`: how the end is treated, and an explicit indentation. -/
structure BlockHeader where
  chomping : Chomping
  increment : Option Nat

/-- The sign that says how the end is treated. -/
def readChomping : List Glyph → Option (Chomping × List Glyph)
  | g :: rest =>
    if g.char = '+' then some (.keep, rest)
    else if g.char = '-' then some (.strip, rest)
    else none
  | [] => none

/-- An indentation from 1 to 9, if one is given; zero is none. -/
def readIncrement (gs : List Glyph) : Option (Option Nat × List Glyph) :=
  match gs with
  | g :: rest =>
    if g.char = '0' then none
    else if Text.isAsciiDigit g.char then some (some (g.char.toNat - '0'.toNat), rest)
    else some (none, gs)
  | [] => some (none, [])

/-- The rest after the end of a line that holds nothing but blanks and a comment. -/
def skipToNextLine (gs : List Glyph) : Option (List Glyph) :=
  let rest := gs.dropWhile fun g => isBlank g.char
  let rest := if startsWith '#' rest then rest.dropWhile fun g => !isBreak g.char else rest
  match rest with
  | [] => some []
  | g :: rest => if isBreak g.char then some rest else none

/-- The header of a scalar, its two parts in either order. -/
def readBlockHeader (gs : List Glyph) : Option (BlockHeader × List Glyph) := do
  let (header, rest) ← match readChomping gs with
    | some (chomping, rest) =>
      (readIncrement rest).map fun r => (BlockHeader.mk chomping r.1, r.2)
    | none =>
      (readIncrement gs).map fun (increment, rest) =>
        match readChomping rest with
        | some (chomping, rest) => (BlockHeader.mk chomping increment, rest)
        | none => (BlockHeader.mk .clip increment, rest)
  let rest ← skipToNextLine rest
  return (header, rest)

/-- Lines without content, up to one that has some. -/
structure Emptiness where
  breaks : List Char
  /-- The deepest indentation seen. -/
  deepest : Nat
  rest : List Glyph

/-- Skips indentation and empty lines. As long as the indentation is unknown any number of spaces is
skipped. A tab cannot indent. -/
def skipEmpty (indent : Option Nat) (breaks : List Char) (deepest : Nat) :
    List Glyph → Option Emptiness
  | [] => some ⟨breaks, deepest, []⟩
  | g :: rest =>
    let outside := indent.all fun n => g.column < n
    if outside && g.char = ' ' then skipEmpty indent breaks deepest rest
    else if outside && g.char = '\t' then none
    else if isBreak g.char then skipEmpty indent (breaks ++ [g.char]) (max deepest g.column) rest
    else some ⟨breaks, max deepest g.column, g :: rest⟩

/-- What was read of a block scalar so far. -/
structure BlockText where
  text : List Char
  /-- The line break after the last line. -/
  lineBreak : Option Char
  /-- The empty lines after it. -/
  breaks : List Char
  /-- Whether the last line began with a blank. -/
  indented : Bool

/-- Adds one line. -/
def BlockText.add (t : BlockText) (literal : Bool) (line : List Char) : BlockText :=
  let blank := line.head?.any isBlank
  let joint :=
    if !literal && t.lineBreak = some '\n' && !t.indented && !blank then
      (if t.breaks.isEmpty then [' '] else [])
    else t.lineBreak.toList
  { text := t.text ++ joint ++ t.breaks ++ line
    lineBreak := none
    breaks := []
    indented := blank }

/-- The whole text, with as much of its end as the header keeps. -/
def BlockText.finish (t : BlockText) : Chomping → List Char
  | .strip => t.text
  | .clip => t.text ++ t.lineBreak.toList
  | .keep => t.text ++ t.lineBreak.toList ++ t.breaks

/-- Reads the lines of the given indentation; the fuel bounds their number. -/
def readBlockLines (literal : Bool) (indent : Nat) :
    Nat → BlockText → List Glyph → Option (BlockText × List Glyph)
  | 0, _, _ => none
  | _, t, [] => some (t, [])
  | fuel + 1, t, g :: rest =>
    if g.column != indent then some (t, g :: rest)
    else
      let line := (g :: rest).takeWhile fun g => !isBreak g.char
      let t := t.add literal (line.map Glyph.char)
      let after := (g :: rest).dropWhile fun g => !isBreak g.char
      let t := { t with lineBreak := after.head?.map Glyph.char }
      match skipEmpty (some indent) [] 0 (after.drop 1) with
      | none => none
      | some empty =>
        readBlockLines literal indent fuel { t with breaks := empty.breaks } empty.rest

/-- A block scalar behind its `|` or `>`. The block around it is indented by `parent`, if there is
one. -/
def readBlock (literal : Bool) (parent : Option Nat) (gs : List Glyph) :
    Option (List Char × List Glyph) := do
  let (header, rest) ← readBlockHeader gs
  let fixed := header.increment.map fun n => n + parent.getD 0
  let empty ← skipEmpty fixed [] 0 rest
  let least := max 1 ((parent.map (· + 1)).getD 0)
  let indent := fixed.getD (max empty.deepest least)
  let (t, rest) ← readBlockLines literal indent (gs.length + 1)
    ⟨[], none, empty.breaks, false⟩ empty.rest
  return (t.finish header.chomping, rest)

end SlashCommands.Yaml
