import SlashCommands.Json.Reader

/-!
# Strings of TOML

Basic strings have escapes, literal ones have none; both exist on one line and on several lines.
Line breaks inside a string are read as line feeds, and one right at the beginning of a string of
several lines is left out.
-/

namespace SlashCommands.Toml

/-- What may stand in a comment: anything but control characters, tabs excepted. -/
def isCommentChar (c : Char) : Bool :=
  c = '\t' || (32 ≤ c.toNat && c.toNat != 127)

/-- The character with a code point, unless there is none. -/
def charOf? (n : Nat) : Option Char :=
  if n < 0xD800 || (0xE000 ≤ n && n < 0x110000) then some (Char.ofNat n) else none

/-- The number that hexadecimal digits stand for. -/
def hexValue? (digits : List Char) : Option Nat :=
  digits.foldlM (fun value c => (Json.hexDigit? c).map fun d => 16 * value + d) 0

/-- The character behind an escape of one letter. -/
def escaped? : Char → Option Char
  | 'b' => some '\x08'
  | 't' => some '\t'
  | 'n' => some '\n'
  | 'f' => some '\x0c'
  | 'r' => some '\r'
  | '\x22' => some '\x22'
  | '\\' => some '\\'
  | _ => none

/-- The character that an escape stands for and what follows it. -/
def readEscape : List Char → Option (Char × List Char)
  | 'u' :: rest =>
    if rest.length < 4 then none
    else ((hexValue? (rest.take 4)).bind charOf?).map fun c => (c, rest.drop 4)
  | 'U' :: rest =>
    if rest.length < 8 then none
    else ((hexValue? (rest.take 8)).bind charOf?).map fun c => (c, rest.drop 8)
  | c :: rest => (escaped? c).map fun c => (c, rest)
  | [] => none

/-- The rest of a basic string; the fuel bounds its length. -/
def readBasicWith : Nat → List Char → Option (List Char × List Char)
  | 0, _ => none
  | fuel + 1, cs =>
    match cs with
    | '\x22' :: rest => some ([], rest)
    | '\\' :: rest =>
      (readEscape rest).bind fun (c, rest) =>
        (readBasicWith fuel rest).map fun r => (c :: r.1, r.2)
    | c :: rest =>
      if isCommentChar c then (readBasicWith fuel rest).map fun r => (c :: r.1, r.2) else none
    | [] => none

/-- The rest of a basic string on one line, behind its opening quote. -/
def readBasic (cs : List Char) : Option (List Char × List Char) :=
  readBasicWith (cs.length + 1) cs

/-- The rest of a literal string. -/
def readLiteral : List Char → Option (List Char × List Char)
  | '\'' :: rest => some ([], rest)
  | c :: rest =>
    if isCommentChar c then (readLiteral rest).map fun r => (c :: r.1, r.2) else none
  | [] => none

/-- Whether a backslash in front hides a line break, with nothing but blanks before it. -/
def hidesBreak (cs : List Char) : Bool :=
  match cs.dropWhile fun c => c = ' ' || c = '\t' with
  | '\n' :: _ => true
  | '\r' :: '\n' :: _ => true
  | _ => false

/-- Skips blanks and line breaks. -/
def skipBreaks : List Char → List Char
  | ' ' :: rest => skipBreaks rest
  | '\t' :: rest => skipBreaks rest
  | '\n' :: rest => skipBreaks rest
  | '\r' :: '\n' :: rest => skipBreaks rest
  | cs => cs

/-- How many quotes stand at the front. -/
def quoteRun (mark : Char) (cs : List Char) : Nat :=
  (cs.takeWhile (· = mark)).length

/-- The end of a string of several lines at a run of quotes: up to two of them belong to the text.
-/
def closeRun? (mark : Char) (cs : List Char) : Option (List Char × List Char) :=
  let run := quoteRun mark cs
  if run < 3 then none
  else
    let inside := min (run - 3) 2
    some (List.replicate inside mark, cs.drop (inside + 3))

/-- The rest of a string of several lines; without escapes if it is a literal one. -/
def readLongWith (mark : Char) : Nat → List Char → Option (List Char × List Char)
  | 0, _ => none
  | fuel + 1, cs =>
    match closeRun? mark cs with
    | some done => some done
    | none =>
      match cs with
      | [] => none
      | '\n' :: rest => (readLongWith mark fuel rest).map fun r => ('\n' :: r.1, r.2)
      | '\r' :: '\n' :: rest => (readLongWith mark fuel rest).map fun r => ('\n' :: r.1, r.2)
      | c :: rest =>
        if c = '\\' && mark = '\x22' then
          if hidesBreak rest then readLongWith mark fuel (skipBreaks rest)
          else (readEscape rest).bind fun (c, rest) =>
            (readLongWith mark fuel rest).map fun r => (c :: r.1, r.2)
        else if isCommentChar c then
          (readLongWith mark fuel rest).map fun r => (c :: r.1, r.2)
        else none

/-- The rest of a string on several lines, behind its opening quotes. -/
def readLong (mark : Char) (cs : List Char) : Option (List Char × List Char) :=
  let cs := match cs with
    | '\n' :: rest => rest
    | '\r' :: '\n' :: rest => rest
    | cs => cs
  readLongWith mark (cs.length + 1) cs

/-- A string of any form. -/
def readString : List Char → Option (List Char × List Char)
  | '\x22' :: '\x22' :: '\x22' :: rest => readLong '\x22' rest
  | '\x22' :: rest => readBasic rest
  | '\'' :: '\'' :: '\'' :: rest => readLong '\'' rest
  | '\'' :: rest => readLiteral rest
  | _ => none

end SlashCommands.Toml
