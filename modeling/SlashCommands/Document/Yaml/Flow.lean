import SlashCommands.Document.Yaml.Glyph
import SlashCommands.Json.Reader

/-!
# Plain and quoted scalars

Plain scalars end before anything that means something in YAML; quoted ones end at their quote. Both
may go on over several lines, which are folded into one.
-/

namespace SlashCommands.Yaml

/-! ## Plain scalars -/

/-- A plain scalar: its text, whether a line break was skipped after it, and the rest. -/
structure Plain where
  text : List Char
  endsLine : Bool
  rest : List Glyph

/-- The characters that mean something inside brackets. -/
def isFlowIndicator (c : Char) : Bool :=
  c = ',' || c = '[' || c = ']' || c = '\x7b' || c = '\x7d'

/-- Whether a colon here ends a plain scalar. -/
def endsAtColon (rest : List Glyph) : Bool :=
  atGap rest

/-- Whether a colon here makes no sense inside brackets. -/
def strayColon (rest : List Glyph) : Bool :=
  match rest with
  | g :: _ => isFlowIndicator g.char || g.char = '?'
  | [] => false

/-- Reads on in a plain scalar. Outside of brackets its lines are indented by at least `indent`. -/
def readPlain (inFlow : Bool) (indent : Nat) (gap : Gap) (text : List Char) :
    List Glyph → Option Plain
  | [] => some ⟨text, gap.hasBreak, []⟩
  | g :: rest =>
    let done : Option Plain := some ⟨text, gap.hasBreak, g :: rest⟩
    if isBlank g.char then
      if gap.hasBreak && g.column < indent && g.char = '\t' then none
      else readPlain inFlow indent (gap.addBlank g.char) text rest
    else if isBreak g.char then readPlain inFlow indent (gap.addBreak g.char) text rest
    else if gap != .none && !inFlow && g.column < indent then done
    else if atDocumentMark (g :: rest) then done
    else if g.char = '#' && gap != .none then done
    else if inFlow && g.char = ':' && strayColon rest then none
    else if g.char = ':' && endsAtColon rest then done
    else if inFlow && isFlowIndicator g.char then done
    else readPlain inFlow indent .none (text ++ gap.fold ++ [g.char]) rest

/-! ## Quoted scalars -/

/-- Reads on in a scalar in single quotes; a quote inside is written twice. -/
def readSingle (gap : Gap) (text : List Char) : List Glyph → Option (List Char × List Glyph)
  | [] => none
  | g :: rest =>
    if atDocumentMark (g :: rest) then none
    else if g.char = '\'' then
      match rest with
      | h :: rest' =>
        if h.char = '\'' then readSingle .none (text ++ gap.fold ++ ['\'']) rest'
        else some (text ++ gap.fold, rest)
      | [] => some (text ++ gap.fold, [])
    else if isBlank g.char then readSingle (gap.addBlank g.char) text rest
    else if isBreak g.char then readSingle (gap.addBreak g.char) text rest
    else readSingle .none (text ++ gap.fold ++ [g.char]) rest

/-- The character behind each escape of one letter. -/
def escapes : List (Char × Char) :=
  [('0', '\x00'), ('a', '\x07'), ('b', '\x08'), ('t', '\t'), ('\t', '\t'), ('n', '\n'),
   ('v', '\x0b'), ('f', '\x0c'), ('r', '\x0d'), ('e', '\x1b'), (' ', ' '), ('\x22', '\x22'),
   ('/', '/'), ('\\', '\\'), ('N', '\u0085'), ('_', '\u00a0'), ('L', '\u2028'), ('P', '\u2029')]

/-- How many hexadecimal digits follow an escape. -/
def escapeWidth? (c : Char) : Option Nat :=
  if c = 'x' then some 2 else if c = 'u' then some 4 else if c = 'U' then some 8 else none

/-- The character that an escape stands for and what follows it. -/
def readEscape : List Glyph → Option (Char × List Glyph)
  | [] => none
  | g :: rest =>
    match escapeWidth? g.char with
    | none => (escapes.find? fun e => e.1 == g.char).map fun e => (e.2, rest)
    | some width =>
      let digits := (rest.take width).map Glyph.char
      if digits.length < width then none
      else
        let value := digits.foldlM (fun value c =>
          (Json.hexDigit? c).map fun d => 16 * value + d) 0
        (value.filter fun n => n < 0xD800 || (0xE000 ≤ n && n < 0x110000)).map fun n =>
          (Char.ofNat n, rest.drop width)

/-- Reads on in a scalar in double quotes; the fuel bounds its length. A backslash at the end of a
line joins it to the next one. -/
def readDouble (gap : Gap) (text : List Char) : Nat → List Glyph → Option (List Char × List Glyph)
  | 0, _ => none
  | _, [] => none
  | fuel + 1, g :: rest =>
    if atDocumentMark (g :: rest) then none
    else if g.char = '\x22' then some (text ++ gap.fold, rest)
    else if g.char = '\\' then
      match rest with
      | h :: rest' =>
        if isBreak h.char then readDouble (.lines none []) (text ++ gap.fold) fuel rest'
        else (readEscape rest).bind fun (c, rest) =>
          readDouble .none (text ++ gap.fold ++ [c]) fuel rest
      | [] => none
    else if isBlank g.char then readDouble (gap.addBlank g.char) text fuel rest
    else if isBreak g.char then readDouble (gap.addBreak g.char) text fuel rest
    else readDouble .none (text ++ gap.fold ++ [g.char]) fuel rest

end SlashCommands.Yaml
