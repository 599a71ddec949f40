import SlashCommands.Json

/-!
# Printing JSON values

`Json.pretty` lays a value out over lines, two blanks for each level, fields in their order; an
empty list or record stays on one line.
-/

namespace SlashCommands.Json

/-- Four hexadecimal digits, zeros in front where there are fewer. -/
def hexDigits4 (n : Nat) : List Char :=
  let digits := Nat.toDigits 16 n
  List.replicate (4 - digits.length) '0' ++ digits

/-- A character inside a quoted text. -/
def escapeChar (c : Char) : List Char :=
  if c = '\x22' then ['\\', '\x22']
  else if c = '\\' then ['\\', '\\']
  else if c = '\n' then ['\\', 'n']
  else if c = '\r' then ['\\', 'r']
  else if c = '\t' then ['\\', 't']
  else if c = '\x08' then ['\\', 'b']
  else if c = '\x0c' then ['\\', 'f']
  else if c.toNat < 32 then ['\\', 'u'] ++ hexDigits4 c.toNat
  else [c]

/-- A text in its quotes. -/
def quoted (text : String) : String :=
  String.ofList ('\x22' :: text.toList.flatMap escapeChar ++ ['\x22'])

/-- A new line of the given level. -/
def indent (level : Nat) : String :=
  "\n" ++ String.ofList (List.replicate (2 * level) ' ')

mutual

/-- The value as it stands on a line of the given level. -/
def prettyAt (level : Nat) : Json → String
  | null => "null"
  | bool value => if value then "true" else "false"
  | int value => toString value
  | float value => if value.isWhole then value.wholeText else value.text
  | str value => quoted value
  | arr [] => "[]"
  | arr items => "[" ++ prettyItems (level + 1) items ++ indent level ++ "]"
  | obj [] => "\x7b\x7d"
  | obj fields => "\x7b" ++ prettyFields (level + 1) fields ++ indent level ++ "\x7d"

/-- The items of an array, each on its line. -/
def prettyItems (level : Nat) : List Json → String
  | [] => ""
  | [item] => indent level ++ prettyAt level item
  | item :: items => indent level ++ prettyAt level item ++ "," ++ prettyItems level items

/-- The fields of an object, each on its line. -/
def prettyFields (level : Nat) : List (String × Json) → String
  | [] => ""
  | [field] => indent level ++ quoted field.1 ++ ": " ++ prettyAt level field.2
  | field :: fields =>
    indent level ++ quoted field.1 ++ ": " ++ prettyAt level field.2 ++ ","
      ++ prettyFields level fields

end

/-- The value over several lines, two blanks for each level. -/
def pretty (value : Json) : String :=
  prettyAt 0 value

end SlashCommands.Json
