import SlashCommands.Numeric.Shortest

/-!
# Faults of a declaration

Everything that can be wrong with a declaration, as causes; `message` is the one place that words
them. A fault of the grammar always carries the text that could not be read.
-/

namespace SlashCommands

/-- Why a declaration text does not follow the grammar. -/
inductive GrammarFault
  | unclosedAngle
  | unclosedSquare
  | nestedSquare
  | mismatchedBrackets
  | bracketInWord (word : String)
  | nothingToRead
  | wordAfterArgument (word : String)
  | wordTooMany (word : String)
  | notOneArgument (found : Nat)
  | emptyName
  | choicesTooFew (name : String)
  | noBound (name : String)
  | strayInBounds (rest name : String)
  | mixedBounds (name : String)
  | badNumber (literal : String)
  | lengthOutOfRange (bound name : String)
  | lengthNotWhole (bound name : String)
  | pathWords
deriving DecidableEq, Inhabited

namespace GrammarFault

/-- The fault in words. -/
def message : GrammarFault → String
  | unclosedAngle => "unclosed '<' in argument"
  | unclosedSquare => "unclosed '[' in argument"
  | nestedSquare => "nested '[' in argument"
  | mismatchedBrackets => "mismatched brackets in argument"
  | bracketInWord word => "mismatched brackets in '" ++ word ++ "'"
  | nothingToRead => "no segments to parse"
  | wordAfterArgument word => "subcommand '" ++ word ++ "' cannot follow an argument"
  | wordTooMany word => "'" ++ word ++ "' exceeds the subgroup and subcommand positions"
  | notOneArgument found => "expected exactly one argument, found " ++ toString found
  | emptyName => "argument name is empty"
  | choicesTooFew name =>
    "choice list for '" ++ name ++ "' needs at least two non-empty entries"
  | noBound name => "no minimum or maximum found in bounds of '" ++ name ++ "'"
  | strayInBounds rest name => "unexpected '" ++ rest ++ "' in bounds of '" ++ name ++ "'"
  | mixedBounds name => "bounds of '" ++ name ++ "' mix value (x) and length (l)"
  | badNumber literal => "invalid number '" ++ literal ++ "'"
  | lengthOutOfRange bound name =>
    "length bound " ++ bound ++ " of '" ++ name ++ "' is out of range"
  | lengthNotWhole bound name =>
    "length bound " ++ bound ++ " of '" ++ name ++ "' must be a whole number"
  | pathWords => "a subcommand path is one or two words"

end GrammarFault

/-- Why a name is not a legal one. -/
inductive NameFault
  | badCharacters
  | notLowercase
deriving DecidableEq, Inhabited

/-- The broken rule in words. -/
def NameFault.message : NameFault → String
  | badCharacters =>
    "names must be 1-32 characters of '-', '_', and letters or numbers in any language"
  | notLowercase => "names must be fully lowercase"

/-- Why a command, or a part of it, was refused. -/
inductive Fault
  | grammar (raw : String) (reason : GrammarFault)
  | missing (what : String)
  | wrongKind (what expected : String)
  | duplicate (what name : String)
  | exclusive (subject first second : String)
  | belowMinimum (what : String) (value minimum : Binary64)
  | aboveMaximum (what : String) (value maximum : Binary64)
  | rule (text : String)
  | badName (what name : String) (reason : NameFault)
  | notFound (what reference : String)
  | unknownType (raw : String) (suggestion : Option String)
  | unreadable (path reason : String)
  | unparsable (path : String)
deriving DecidableEq, Inhabited

namespace Fault

/-- The fault in words, as the author of the command reads it. -/
def message : Fault → String
  | grammar raw reason =>
    "invalid command syntax: " ++ reason.message ++ "\n\tfailed to parse: " ++ raw
  | missing what => "missing " ++ what
  | wrongKind what expected => "invalid " ++ what ++ ": expected " ++ expected
  | duplicate what name => "cannot define duplicate " ++ what ++ " '" ++ name ++ "'"
  | exclusive subject first second =>
    "properties '" ++ first ++ "' and '" ++ second ++ "' are mutually exclusive on '" ++ subject
      ++ "'"
  | belowMinimum what value minimum =>
    "value of '" ++ what ++ "' (" ++ value.text ++ ") is below the minimum of " ++ minimum.text
  | aboveMaximum what value maximum =>
    "value of '" ++ what ++ "' (" ++ value.text ++ ") is above the maximum of " ++ maximum.text
  | rule text => text
  | badName what name reason =>
    "invalid " ++ what ++ " name '" ++ name ++ "': " ++ reason.message
  | notFound what reference => what ++ " '" ++ reference ++ "' does not exist"
  | unknownType raw none => "unknown argument type '" ++ raw ++ "'"
  | unknownType raw (some near) =>
    "unknown argument type '" ++ raw ++ "' (did you mean '" ++ near ++ "'?)"
  | unreadable path reason => "failed to read " ++ path ++ ": " ++ reason
  | unparsable path => "failed to parse " ++ path

end Fault

end SlashCommands
