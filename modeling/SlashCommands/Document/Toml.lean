import SlashCommands.Document.Toml.Table

/-!
# TOML documents

A TOML text is a sequence of lines: comments, keys with their values, and the headers of tables.
Arrays and inline tables nest at most 79 deep, and a dotted key has fewer than 80 parts.
-/

namespace SlashCommands.Toml

/-- The blanks within a line. -/
def isSpace (c : Char) : Bool :=
  c = ' ' || c = '\t'

/-- The text without the blanks at its beginning. -/
def skipSpace (cs : List Char) : List Char :=
  cs.dropWhile isSpace

/-- The rest after a line break, if there is one. -/
def afterBreak? : List Char → Option (List Char)
  | '\n' :: rest => some rest
  | '\x0d' :: '\n' :: rest => some rest
  | _ => none

/-- Skips a comment; its characters have to be legal. -/
def skipComment? (cs : List Char) : Option (List Char) :=
  match cs with
  | '#' :: _ =>
    let rest := cs.dropWhile isCommentChar
    if rest.isEmpty || (afterBreak? rest).isSome then some rest else none
  | _ => some cs

/-- Skips blanks and a comment up to the next line or the end. -/
def lineEnd? (cs : List Char) : Option (List Char) :=
  (skipComment? (skipSpace cs)).bind fun rest =>
    if rest.isEmpty then some [] else afterBreak? rest

/-- Skips blanks, comments and line breaks; the fuel bounds their number. -/
def skipLines : Nat → List Char → Option (List Char)
  | 0, _ => none
  | fuel + 1, cs =>
    (skipComment? (skipSpace cs)).bind fun rest =>
      match afterBreak? rest with
      | some rest => skipLines fuel rest
      | none => some rest

/-! ## Keys -/

/-- The characters of a key without quotes. -/
def isBareKeyChar (c : Char) : Bool :=
  Text.isAsciiLetter c || Text.isAsciiDigit c || c = '_' || c = '-'

/-- One part of a key, quoted or bare. -/
def readKey : List Char → Option (String × List Char)
  | '\x22' :: rest => (readBasic rest).map fun r => (String.ofList r.1, r.2)
  | '\'' :: rest => (readLiteral rest).map fun r => (String.ofList r.1, r.2)
  | cs =>
    let name := cs.takeWhile isBareKeyChar
    if name.isEmpty then none else some (String.ofList name, cs.dropWhile isBareKeyChar)

/-- A key of parts with dots between them. -/
def readParts : Nat → List Char → Option (List String × List Char)
  | 0, _ => none
  | fuel + 1, cs =>
    (readKey (skipSpace cs)).bind fun (name, rest) =>
      match skipSpace rest with
      | '.' :: rest => (readParts fuel rest).map fun r => (name :: r.1, r.2)
      | rest => some ([name], rest)

/-- The most parts of a dotted key. -/
def maxParts : Nat := 79

/-- A key, of one part or dotted. -/
def readPath (cs : List Char) : Option (List String × List Char) :=
  readParts maxParts cs

/-! ## Values -/

/-- The most lists and inline tables inside one another. -/
def maxNesting : Nat := 79

mutual

/-- The value at the front of a text. The fuel bounds the number of steps, `levels` the nesting. -/
def readValue : Nat → Nat → List Char → Option (Document × List Char)
  | 0, _, _ => none
  | fuel + 1, levels, cs =>
    match cs with
    | '[' :: rest =>
      if levels = 0 then none
      else (readItems fuel (levels - 1) rest).map fun r => (.list r.1 false, r.2)
    | '\x7b' :: rest =>
      if levels = 0 then none
      else match skipSpace rest with
        | '\x7d' :: rest => some (.map [], rest)
        | rest => (readPairs fuel (levels - 1) (.empty .header) rest).map fun r =>
            (r.1.toDocument, r.2)
    | '\x22' :: _ => (readString cs).map fun r => (.leaf (.ofString (String.ofList r.1)), r.2)
    | '\'' :: _ => (readString cs).map fun r => (.leaf (.ofString (String.ofList r.1)), r.2)
    | _ => readScalar cs

/-- The items of an array up to its end; a comma may follow the last one. -/
def readItems : Nat → Nat → List Char → Option (List Document × List Char)
  | 0, _, _ => none
  | fuel + 1, levels, cs =>
    match skipLines (cs.length + 1) cs with
    | none => none
    | some (']' :: rest) => some ([], rest)
    | some cs =>
      match readValue fuel levels cs with
      | none => none
      | some (item, rest) =>
        match skipLines (rest.length + 1) rest with
        | some (']' :: rest) => some ([item], rest)
        | some (',' :: rest) => (readItems fuel levels rest).map fun r => (item :: r.1, r.2)
        | _ => none

/-- The pairs of an inline table up to its end, added to those before. -/
def readPairs : Nat → Nat → Table → List Char → Option (Table × List Char)
  | 0, _, _, _ => none
  | fuel + 1, levels, table, cs =>
    match readPath cs with
    | some (path, '=' :: rest) =>
      match readValue fuel levels (skipSpace rest) with
      | none => none
      | some (value, rest) =>
        match table.put? path value with
        | none => none
        | some table =>
          match skipSpace rest with
          | '\x7d' :: rest => some (table, rest)
          | ',' :: rest => readPairs fuel levels table rest
          | _ => none
    | _ => none

end

/-! ## Lines -/

/-- A key and its value, up to the end of the line. -/
def readPair (cs : List Char) : Option ((List String × Document) × List Char) :=
  match readPath cs with
  | some (path, '=' :: rest) =>
    (readValue (2 * cs.length + 2) maxNesting (skipSpace rest)).bind fun (value, rest) =>
      (lineEnd? rest).map fun rest => ((path, value), rest)
  | _ => none

/-- The header of a table or, with two brackets, of one more table in an array. -/
def readHeader (cs : List Char) : Option ((List String × Bool) × List Char) :=
  match cs with
  | '[' :: '[' :: rest =>
    match readPath rest with
    | some (path, ']' :: ']' :: rest) => (lineEnd? rest).map fun rest => ((path, true), rest)
    | _ => none
  | '[' :: rest =>
    match readPath rest with
    | some (path, ']' :: rest) => (lineEnd? rest).map fun rest => ((path, false), rest)
    | _ => none
  | _ => none

/-- Reads lines into tables; the fuel bounds their number. -/
def readLines : Nat → Tables → List Char → Option Tables
  | 0, _, _ => none
  | fuel + 1, tables, cs =>
    match skipSpace cs with
    | [] => some tables
    | '#' :: rest => (lineEnd? ('#' :: rest)).bind (readLines fuel tables)
    | '[' :: rest =>
      (readHeader ('[' :: rest)).bind fun ((path, repeated), rest) =>
        (tables.begin? path repeated).bind fun tables => readLines fuel tables rest
    | cs =>
      match afterBreak? cs with
      | some rest => readLines fuel tables rest
      | none =>
        (readPair cs).bind fun ((path, value), rest) =>
          (tables.put? path value).bind fun tables => readLines fuel tables rest

/-- The document that a text holds. -/
def ofText? (text : String) : Option Document :=
  let cs := match text.toList with
    | '\ufeff' :: rest => rest
    | cs => cs
  ((readLines (cs.length + 1) .empty cs).bind Tables.close?).map Table.toDocument

end SlashCommands.Toml
