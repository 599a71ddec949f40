import SlashCommands.Text.Printable

/-!
# Quoted texts

A quoted text stands between double quotes; the quote, the backslash and what is not printable are
escaped, so a list of quoted texts can be read back unambiguously.
-/

namespace SlashCommands.Text

/-- The code point in lower-case hexadecimal between braces, without leading zeros. -/
def codePointEscape (c : Char) : List Char :=
  ['\\', 'u', '\x7b'] ++ Nat.toDigits 16 c.toNat ++ ['\x7d']

/-- A character inside a quoted text. -/
def quoteChar (c : Char) : List Char :=
  if c = '\x22' then ['\\', '\x22']
  else if c = '\\' then ['\\', '\\']
  else if c = '\n' then ['\\', 'n']
  else if c = '\r' then ['\\', 'r']
  else if c = '\t' then ['\\', 't']
  else if c = '\x00' then ['\\', '0']
  else if isPrintable c && !isExtender c then [c]
  else codePointEscape c

/-- A text in its quotes. -/
def quote (text : String) : String :=
  String.ofList ('\x22' :: text.toList.flatMap quoteChar ++ ['\x22'])

/-- Quoted texts with commas between them. -/
def quoteAll (texts : List String) : String :=
  ", ".intercalate (texts.map quote)

/-- The texts of a list, quoted, in square brackets. -/
def quoteList (texts : List String) : String :=
  "[" ++ quoteAll texts ++ "]"

/-- The texts of a set, quoted, in braces. -/
def quoteSet (texts : List String) : String :=
  "\x7b" ++ quoteAll texts ++ "\x7d"

end SlashCommands.Text
