import SlashCommands.Platform.ChannelKind
import SlashCommands.Platform.OptionKind
import SlashCommands.Text.Blank
import SlashCommands.Text.Letters
import SlashCommands.Text.LetterCase
import SlashCommands.Text.EditDistance

/-!
# Argument types

The datatype of an argument and the names it is written by. A name is looked up by its letters
alone, in lower case and without a plural `s`, so `Integers`, `voice channels` and `voice-channel`
are all known; `keyword` is the one spelling that is written back.
-/

namespace SlashCommands

/-- Which channels a channel argument accepts. -/
inductive ChannelScope
  | all
  | text
  | voice
  | stage
  | category
  | announcement
  | thread
  | forum
deriving DecidableEq, Inhabited

/-- What is given for an argument. The platform checks the input against it. -/
inductive ArgumentType
  | string
  | integer
  | float
  | boolean
  | user
  | role
  | mentionable
  | attachment
  | channel (scope : ChannelScope)
deriving DecidableEq, Inhabited

/-- What a value of a type travels as. -/
inductive Primitive
  | string
  | number
  | boolean
deriving DecidableEq

namespace ChannelScope

/-- The channels of a scope, as the platform tells them apart. -/
def kinds : ChannelScope → List ChannelKind
  | all => ChannelKind.all
  | text => [.guildText]
  | voice => [.guildVoice]
  | stage => [.guildStageVoice]
  | category => [.guildCategory]
  | announcement => [.guildAnnouncement]
  | thread => [.announcementThread, .privateThread, .publicThread]
  | forum => [.guildForum]

/-- The scope as a declaration spells it. -/
def keyword : ChannelScope → String
  | all => "channel"
  | text => "text channel"
  | voice => "voice channel"
  | stage => "stage channel"
  | category => "category channel"
  | announcement => "announcement channel"
  | thread => "thread channel"
  | forum => "forum channel"

/-- The scope meant by the letters before `channel`; unknown ones mean text channels. -/
def ofQualifier (letters : String) : ChannelScope :=
  match letters with
  | "" | "all" => all
  | "voice" | "vc" => voice
  | "stage" => stage
  | "category" | "cat" => category
  | "thread" => thread
  | "announcement" | "announcements" | "news" => announcement
  | "forum" | "forums" => forum
  | _ => text

end ChannelScope

namespace ArgumentType

/-- The letters of a type name in lower case, without one `s` at the end. -/
def nameLetters (name : List Char) : List Char :=
  let letters := (name.filter Text.isAlphabetic).flatMap Text.lowercase
  if letters.getLast? = some 's' then letters.dropLast else letters

/-- The letters before a final `channel`. -/
def channelQualifier? (letters : List Char) : Option String :=
  if "channel".toList.isSuffixOf letters then
    some (String.ofList (letters.take (letters.length - 7)))
  else none

/-- The type a word of a declaration means, all in small letters and without blanks. -/
def ofLetters? (letters : String) : Option ArgumentType :=
  match letters with
  | "string" | "str" => some string
  | "int" | "integer" | "intg" => some integer
  | "num" | "number" | "float" => some float
  | "bool" | "boolean" => some boolean
  | "user" => some user
  | "role" => some role
  | "mention" | "mentionable" => some mentionable
  | "attachment" | "file" | "image" => some attachment
  | "vc" | "voice" => some (channel .voice)
  | _ => none

/-- The type a written name means, if any. -/
def ofName? (name : List Char) : Option ArgumentType :=
  let letters := nameLetters name
  match channelQualifier? letters with
  | some qualifier => some (channel (.ofQualifier qualifier))
  | none => ofLetters? (String.ofList letters)

/-- The spellings offered for a name that is not known. -/
def knownNames : List String :=
  ["string", "integer", "number", "float", "boolean", "user", "role", "mentionable", "attachment",
   "file", "channel", "voice channel", "text channel", "stage channel", "category channel",
   "thread channel", "announcement channel", "forum channel"]

/-- Keeps the first of the nearest candidates at a distance of at most two. -/
def nearer (input : List Char) (best : Option (String × Nat)) (name : String) :
    Option (String × Nat) :=
  let distance := Text.editDistance input name.toList
  if distance ≤ 2 && best.all (fun b => distance < b.2) then some (name, distance) else best

/-- The known name nearest to a written one, if it is at most two edits away. -/
def suggestion? (name : List Char) : Option String :=
  let input := (Text.trim name).flatMap Text.lowercase
  (knownNames.foldl (nearer input) none).map (·.1)

/-- The types that bounds may be set on. -/
def isNumeric : ArgumentType → Bool
  | integer | float => true
  | _ => false

/-- Whether channels are given, of whatever scope. -/
def isChannel : ArgumentType → Bool
  | channel _ => true
  | _ => false

/-- Whether arguments of the type may have a fixed list of choices. -/
def takesChoices : ArgumentType → Bool
  | string | integer | float => true
  | _ => false

/-- The channels that may be given, none listed for any other type. -/
def channelKinds : ArgumentType → List ChannelKind
  | channel scope => scope.kinds
  | _ => []

/-- What a value of the type is on the wire. -/
def primitive : ArgumentType → Primitive
  | integer | float => .number
  | boolean => .boolean
  | _ => .string

/-- The kind the option is registered with. -/
def optionKind : ArgumentType → OptionKind
  | string => .string
  | integer => .integer
  | float => .number
  | boolean => .boolean
  | user => .user
  | role => .role
  | mentionable => .mentionable
  | attachment => .attachment
  | channel _ => .channel

/-- The type as declarations and messages spell it. -/
def keyword : ArgumentType → String
  | string => "string"
  | integer => "integer"
  | float => "number"
  | boolean => "boolean"
  | user => "user"
  | role => "role"
  | mentionable => "mentionable"
  | attachment => "attachment"
  | channel scope => scope.keyword

end ArgumentType

end SlashCommands
