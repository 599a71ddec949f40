import SlashCommands.Document.Yaml.Block
import SlashCommands.Document.Yaml.Flow

/-!
# Tokens of YAML

A YAML text is cut into tokens; indentation becomes brackets around blocks. Whether a scalar is a
key only shows at the colon behind it, so the place where a key could begin is kept in mind: its
token, and that of a new block if one begins there, are put in afterwards. A key stands on one line
and has at most 1024 characters.
-/

namespace SlashCommands.Yaml

/-- How a scalar is written. -/
inductive Style
  | plain
  | quoted
  | literal
  | folded
deriving DecidableEq

/-- A piece of the text, or a bracket that its indentation stands for. -/
inductive Token
  /-- With the name and the parameters of the directive. -/
  | directive (parts : List String)
  | documentStart
  | documentEnd
  | blockSequence
  | blockMapping
  | blockEnd
  | flowSequence
  | flowSequenceEnd
  | flowMapping
  | flowMappingEnd
  | entry
  | comma
  | key
  | value
  | alias (name : String)
  | anchor (name : String)
  | tag (handle suffix : String)
  | scalar (style : Style) (text : String)
deriving DecidableEq

/-- A place where a key may have begun. -/
structure Candidate where
  /-- How many tokens came before. -/
  token : Nat
  line : Nat
  column : Nat
  /-- Whether nothing but a key may stand there. -/
  required : Bool
deriving DecidableEq

/-- A text being cut into tokens: those found so far, what is open, and what is left. -/
structure Scan where
  tokens : Array Token
  /-- The indentations of the open blocks, innermost first. -/
  indents : List Nat
  /-- For each open bracket, and the text around them, where a key may have begun, innermost
  first. -/
  candidates : List (Option Candidate)
  keyAllowed : Bool
  rest : List Glyph

namespace Scan

/-- Before the first character, where a key may begin. -/
def start (rest : List Glyph) : Scan where
  tokens := #[]
  indents := []
  candidates := [none]
  keyAllowed := true
  rest := rest

/-- Whether the scan is inside brackets. -/
def inFlow (s : Scan) : Bool :=
  1 < s.candidates.length

/-- The column of the next character. -/
def column (s : Scan) : Nat :=
  (s.rest.head?.map Glyph.column).getD 0

/-- The line of the next character. -/
def line (s : Scan) : Nat :=
  (s.rest.head?.map Glyph.line).getD 0

/-- Adds a token at the end. -/
def emit (s : Scan) (t : Token) : Scan :=
  { s with tokens := s.tokens.push t }

/-- Passes over some characters. -/
def advance (s : Scan) (count : Nat) : Scan :=
  { s with rest := s.rest.drop count }

/-- Says whether a key may begin at the next token. -/
def allow (s : Scan) (keyAllowed : Bool) : Scan :=
  { s with keyAllowed }

/-- Skips blanks, comments and line breaks. A tab cannot stand where a key could begin a block. -/
def skipGap (inFlow keyAllowed inComment : Bool) : List Glyph → Bool × List Glyph
  | [] => (keyAllowed, [])
  | g :: rest =>
    if isBreak g.char then skipGap inFlow (keyAllowed || !inFlow) false rest
    else if inComment then skipGap inFlow keyAllowed true rest
    else if g.char = ' ' || (g.char = '\t' && (inFlow || !keyAllowed)) then
      skipGap inFlow keyAllowed false rest
    else if g.char = '#' then skipGap inFlow keyAllowed true rest
    else (keyAllowed, g :: rest)

/-- Passes over blanks, line breaks and comments. -/
def toNextToken (s : Scan) : Scan :=
  let (keyAllowed, rest) := skipGap s.inFlow s.keyAllowed false s.rest
  { s with keyAllowed, rest }

/-- Gives up a place where a key could have begun. -/
def dropCandidate (s : Scan) : Option Scan :=
  match s.candidates with
  | some candidate :: outer =>
    if candidate.required then none else some { s with candidates := none :: outer }
  | _ => some s

/-- Whether a key from that place would be on an earlier line, or too long. -/
def isStale (s : Scan) (candidate : Candidate) : Bool :=
  candidate.line < s.line || candidate.column + 1024 < s.column

/-- Gives up the places that a key can no longer begin at. -/
def dropStale (s : Scan) : Option Scan :=
  let stale := fun (c : Option Candidate) => c.any s.isStale
  if s.candidates.any fun c => stale c && c.any (·.required) then none
  else some { s with candidates := s.candidates.map fun c => if stale c then none else c }

/-- Remembers that a key may begin here. -/
def markCandidate (s : Scan) : Option Scan :=
  if s.keyAllowed then
    s.dropCandidate.map fun s =>
      let candidate : Candidate := {
        token := s.tokens.size
        line := s.line
        column := s.column
        required := !s.inFlow && s.indents.head? == some s.column }
      { s with candidates := some candidate :: s.candidates.drop 1 }
  else some s

/-- Closes the blocks that are indented further than a column. -/
def closeBlocks (column : Option Nat) : List Nat → Array Token → List Nat × Array Token
  | [], tokens => ([], tokens)
  | indent :: indents, tokens =>
    if column.all (· < indent) then closeBlocks column indents (tokens.push .blockEnd)
    else (indent :: indents, tokens)

/-- Closes the blocks that are indented further than a column, all of them where none is given. -/
def unindent (s : Scan) (column : Option Nat) : Scan :=
  if s.inFlow then s
  else
    let (indents, tokens) := closeBlocks column s.indents s.tokens
    { s with indents, tokens }

/-- Opens a block at a column, unless one is open there; its token gets the given place. -/
def indent (s : Scan) (column place : Nat) (t : Token) : Scan :=
  if s.inFlow || s.indents.head?.any (column ≤ ·) then s
  else { s with
    indents := column :: s.indents
    tokens := s.tokens.take place ++ #[t] ++ s.tokens.drop place }

/-! ## The kinds of tokens -/

/-- A line that separates documents, or the end. -/
def separate (s : Scan) : Option Scan :=
  ((s.unindent none).dropCandidate).map fun s => s.allow false

/-- An opening bracket, which may itself begin a key. -/
def openFlow (s : Scan) (t : Token) : Option Scan :=
  s.markCandidate.map fun s =>
    ({ s with candidates := none :: s.candidates } : Scan).allow true |>.emit t |>.advance 1

/-- A closing bracket. -/
def closeFlow (s : Scan) (t : Token) : Option Scan :=
  s.dropCandidate.map fun s =>
    let candidates := if s.inFlow then s.candidates.drop 1 else s.candidates
    ({ s with candidates } : Scan).allow false |>.emit t |>.advance 1

/-- A comma between two values inside brackets. -/
def comma (s : Scan) : Option Scan :=
  s.dropCandidate.map fun s => (s.allow true).emit .comma |>.advance 1

/-- A dash, which begins a block sequence where none is open at its column. -/
def entry (s : Scan) : Option Scan :=
  if !s.inFlow && !s.keyAllowed then none
  else ((s.indent s.column s.tokens.size .blockSequence).dropCandidate).map fun s =>
    (s.allow true).emit .entry |>.advance 1

/-- A question mark, which announces a key. -/
def explicitKey (s : Scan) : Option Scan :=
  if !s.inFlow && !s.keyAllowed then none
  else ((s.indent s.column s.tokens.size .blockMapping).dropCandidate).map fun s =>
    (s.allow (!s.inFlow)).emit .key |>.advance 1

/-- A colon. The key in front of it, and the block it opens, are put in where the key began. -/
def value (s : Scan) : Option Scan :=
  match s.candidates with
  | some candidate :: outer =>
    let place := candidate.token
    let s := { s with
      candidates := none :: outer
      tokens := s.tokens.take place ++ #[Token.key] ++ s.tokens.drop place }
    some ((s.indent candidate.column place .blockMapping).allow false |>.emit .value |>.advance 1)
  | _ =>
    if !s.inFlow && !s.keyAllowed then none
    else
      let s := s.indent s.column s.tokens.size .blockMapping
      some ((s.allow (!s.inFlow)).emit .value |>.advance 1)

/-- The characters of anchors and of the handles of tags. -/
def isNameChar (c : Char) : Bool :=
  Text.isAsciiLetter c || Text.isAsciiDigit c || c = '-' || c = '_'

/-- What may follow the name of an anchor. -/
def endsName (rest : List Glyph) : Bool :=
  atGap rest || rest.head?.any fun g => "?:,]\x7d%@\x60".toList.contains g.char

/-- An anchor or an alias, behind its mark. -/
def reference (s : Scan) (make : String → Token) : Option Scan :=
  s.markCandidate.bind fun s =>
    let name := ((s.rest.drop 1).takeWhile fun g => isNameChar g.char).map Glyph.char
    let rest := s.rest.drop (name.length + 1)
    if name.isEmpty || !endsName rest then none
    else some (({ s with rest } : Scan).allow false |>.emit (make (String.ofList name)))

/-- The characters of a tag's suffix. -/
def isTagChar (c : Char) : Bool :=
  isNameChar c || ";/?:@&=+$.%!~*'()".toList.contains c

/-- The characters of a tag in angle brackets. -/
def isUriChar (c : Char) : Bool :=
  isTagChar c || c = ',' || c = '[' || c = ']'

/-- A tag without its leading mark: its handle and suffix, and the rest. -/
def splitTag (gs : List Glyph) : Option (String × String × List Glyph) :=
  if startsWith '<' gs then
    let uri := ((gs.drop 1).takeWhile fun g => isUriChar g.char).map Glyph.char
    let rest := gs.drop (uri.length + 1)
    if uri.isEmpty || !startsWith '>' rest then none
    else some ("", String.ofList uri, rest.drop 1)
  else
    let name := (gs.takeWhile fun g => isNameChar g.char).map Glyph.char
    let after := gs.drop name.length
    if startsWith '!' after then
      let suffix := ((after.drop 1).takeWhile fun g => isTagChar g.char).map Glyph.char
      if suffix.isEmpty then none
      else some (String.ofList ('!' :: name ++ ['!']), String.ofList suffix,
        after.drop (suffix.length + 1))
    else
      let suffix := (gs.takeWhile fun g => isTagChar g.char).map Glyph.char
      some ("!", String.ofList suffix, gs.drop suffix.length)

/-- A tag, behind its mark. -/
def tag (s : Scan) : Option Scan :=
  s.markCandidate.bind fun s =>
    (splitTag (s.rest.drop 1)).bind fun (handle, suffix, rest) =>
      if atGap rest || (s.inFlow && startsWith ',' rest) then
        some (({ s with rest } : Scan).allow false |>.emit (.tag handle suffix))
      else none

/-- A literal or folded scalar, which no key may be. -/
def block (s : Scan) (literal : Bool) : Option Scan :=
  s.dropCandidate.bind fun s =>
    (readBlock literal s.indents.head? (s.rest.drop 1)).map fun (text, rest) =>
      ({ s with rest } : Scan).allow true
        |>.emit (.scalar (if literal then .literal else .folded) (String.ofList text))

/-- A scalar in quotes. -/
def quoted (s : Scan) (read : List Glyph → Option (List Char × List Glyph)) : Option Scan :=
  s.markCandidate.bind fun s =>
    (read (s.rest.drop 1)).map fun (text, rest) =>
      ({ s with rest } : Scan).allow false |>.emit (.scalar .quoted (String.ofList text))

/-- A plain scalar. -/
def plain (s : Scan) : Option Scan :=
  s.markCandidate.bind fun s =>
    let indent := (s.indents.head?.map (· + 1)).getD 0
    (readPlain s.inFlow indent .none [] s.rest).map fun p =>
      ({ s with rest := p.rest } : Scan).allow p.endsLine
        |>.emit (.scalar .plain (String.ofList p.text))

/-- A line that says something about the document behind it. -/
def directive (s : Scan) : Option Scan :=
  s.separate.bind fun s =>
    let line := ((s.rest.drop 1).takeWhile fun g => !isBreak g.char).map Glyph.char
    let text := line.takeWhile (· != '#')
    let parts := (text.splitBy fun a b => isBlank a == isBlank b).filter fun part =>
      !part.any isBlank
    let rest := s.rest.drop (line.length + 1)
    some (({ s with rest } : Scan).emit (.directive (parts.map String.ofList)))

/-- Whether a plain scalar can begin with a character before the given ones. -/
def startsPlain (inFlow : Bool) (c : Char) (rest : List Glyph) : Bool :=
  if c = '-' then !(rest.head?.any fun g => isBlank g.char)
  else if c = '?' || c = ':' then !inFlow && !atGap rest
  else !"\t,[]\x7b\x7d#&*!|>'\x22%@\x60".toList.contains c

/-- Reads one token, which begins with the character `c`. -/
def next (s : Scan) (c : Char) (rest : List Glyph) : Option Scan :=
  if s.column = 0 && c = '%' then s.directive
  else if atDocumentMark s.rest then
    s.separate.map fun s =>
      s.emit (if c = '-' then .documentStart else .documentEnd) |>.advance 3
  else if c = '[' then s.openFlow .flowSequence
  else if c = '\x7b' then s.openFlow .flowMapping
  else if c = ']' then s.closeFlow .flowSequenceEnd
  else if c = '\x7d' then s.closeFlow .flowMappingEnd
  else if c = ',' then s.comma
  else if c = '-' && atGap rest then s.entry
  else if c = '?' && (s.inFlow || atGap rest) then s.explicitKey
  else if c = ':' && (s.inFlow || atGap rest) then s.value
  else if c = '*' then s.reference .alias
  else if c = '&' then s.reference .anchor
  else if c = '!' then s.tag
  else if c = '|' && !s.inFlow then s.block true
  else if c = '>' && !s.inFlow then s.block false
  else if c = '\'' then s.quoted (readSingle .none [])
  else if c = '\x22' then s.quoted fun gs => readDouble .none [] (gs.length + 1) gs
  else if startsPlain s.inFlow c rest then s.plain
  else none

/-- Reads all tokens; the fuel bounds their number. -/
def run : Nat → Scan → Option (Array Token)
  | 0, _ => none
  | fuel + 1, s =>
    let s := s.toNextToken
    match s.rest with
    | [] => s.separate.map Scan.tokens
    | g :: rest =>
      s.dropStale.bind fun s => ((s.unindent (some s.column)).next g.char rest).bind (run fuel)

end Scan

/-- The tokens of a text. -/
def Token.ofText? (text : String) : Option (List Token) :=
  (glyphs? text).bind fun gs => ((Scan.start gs).run (gs.length + 1)).map Array.toList

end SlashCommands.Yaml
