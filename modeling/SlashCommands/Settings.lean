import SlashCommands.Document.File

/-!
# Settings

What can be set for a running program. Settings are read from a file in any of the known formats;
what the file leaves out has its default. Durations are whole milliseconds in a 64-bit word, and
longer ones are cut to the longest.
-/

namespace SlashCommands

/-- The texts that users see when a command is rejected or fails. -/
structure Messages where
  wrongChannel : String
  missingPermissions : String
  missingRoles : String
  failure : String
deriving DecidableEq, Inhabited

/-- What a settings file can set. -/
structure Settings where
  /-- Every command is registered in these guilds as well. -/
  debugGuilds : List String
  /-- How long a failure is kept back before the user hears of it, in milliseconds. -/
  noticeDelay : UInt64
  /-- How long a handler may run, in milliseconds. -/
  timeLimit : Option UInt64
  logLevel : String
  messages : Messages
deriving DecidableEq, Inhabited

namespace Messages

/-- The texts that are sent unless others are set. -/
def default : Messages where
  wrongChannel := "> **You cannot use this command in this channel.**"
  missingPermissions := "> **You do not have the necessary perms to use this command.**"
  missingRoles := "> **You do not have the necessary roles to use this command.**"
  failure := "> **Something went wrong while running this command.**"

/-- The fields of the texts, in their order. -/
def fieldNames : List String :=
  ["wrong_channel", "missing_permissions", "missing_roles", "failure"]

/-- Reads the texts. Each may be left out. -/
def ofDocument? (document : Document) : Option Messages := do
  let [wrongChannel, missingPermissions, missingRoles, failure] ← document.record? fieldNames | none
  let wrongChannel ← Document.orElse Document.readText default.wrongChannel wrongChannel
  let missingPermissions ←
    Document.orElse Document.readText default.missingPermissions missingPermissions
  let missingRoles ← Document.orElse Document.readText default.missingRoles missingRoles
  let failure ← Document.orElse Document.readText default.failure failure
  return { wrongChannel, missingPermissions, missingRoles, failure }

/-- The texts with all their fields. -/
def toJson (m : Messages) : Json :=
  .obj [("wrong_channel", .str m.wrongChannel),
    ("missing_permissions", .str m.missingPermissions),
    ("missing_roles", .str m.missingRoles), ("failure", .str m.failure)]

end Messages

/-- A duration of whole seconds and nanoseconds in milliseconds. -/
def millisecondsOf (seconds nanoseconds : Nat) : UInt64 :=
  .ofNat (min (seconds * 1000 + nanoseconds / 1000000) (Nat.pow 2 64 - 1))

namespace Settings

/-- The settings where nothing is set. -/
def default : Settings where
  debugGuilds := []
  noticeDelay := 0
  timeLimit := none
  logLevel := "info"
  messages := .default

/-- Whether commands are tried out in certain guilds. -/
def isDevelopment (s : Settings) : Bool :=
  !s.debugGuilds.isEmpty

/-- A time in milliseconds. -/
def readMilliseconds (document : Document) : Option UInt64 :=
  document.readCount.map .ofNat

/-- The fields of the settings, in their order. -/
def fieldNames : List String :=
  ["debug_guilds", "failure_notice_delay_ms", "execution_timeout_ms", "log_level", "messages"]

/-- Reads the settings. Each may be left out. -/
def ofDocument? (document : Document) : Option Settings := do
  let [debugGuilds, noticeDelay, timeLimit, logLevel, messages] ← document.record? fieldNames | none
  let debugGuilds ← Document.orElse (Document.readList Document.readText) [] debugGuilds
  let noticeDelay ← Document.orElse readMilliseconds 0 noticeDelay
  let timeLimit ← Document.orElse (Document.readOptional readMilliseconds) none timeLimit
  let logLevel ← Document.orElse Document.readText default.logLevel logLevel
  let messages ← Document.orElse Messages.ofDocument? .default messages
  return { debugGuilds, noticeDelay, timeLimit, logLevel, messages }

/-- The settings with all their fields. -/
def toJson (s : Settings) : Json :=
  .obj [("debug_guilds", .arr (s.debugGuilds.map Json.str)),
    ("failure_notice_delay_ms", .int s.noticeDelay.toNat),
    ("execution_timeout_ms", Json.ofOption (fun ms => .int ms.toNat) s.timeLimit),
    ("log_level", .str s.logLevel), ("messages", s.messages.toJson)]

/-- Why a settings file cannot be used. -/
inductive FileFault
  | unreadable (path : String)
  | unparsable (format : Format) (path : String)
deriving DecidableEq

/-- The fault in words. -/
def FileFault.message : FileFault → String
  | unreadable path => "failed to read config " ++ path
  | unparsable format path => "failed to parse " ++ format.name ++ " " ++ path

/-- The settings in a file; a missing file holds none. -/
def ofFile (path : String) : FileContent → Except FileFault (Option Settings)
  | .absent => .ok none
  | .undecodable => .error (.unreadable path)
  | .text content =>
    let format := Format.ofPath path
    match (format.read content).bind ofDocument? with
    | some settings => .ok (some settings)
    | none => .error (.unparsable format path)

end Settings

end SlashCommands
