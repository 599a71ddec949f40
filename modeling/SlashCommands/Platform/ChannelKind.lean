/-!
# Channel kinds

The kinds of channel a channel argument can be limited to, with the codes that name them on the
wire.
-/

namespace SlashCommands

/-- The channels of a guild, as the platform tells them apart. -/
inductive ChannelKind
  | guildText
  | guildVoice
  | guildCategory
  | guildAnnouncement
  | announcementThread
  | publicThread
  | privateThread
  | guildStageVoice
  | guildForum
deriving DecidableEq, Inhabited

namespace ChannelKind

/-- The number of a kind on the wire. -/
def code : ChannelKind → UInt8
  | guildText => 0
  | guildVoice => 2
  | guildCategory => 4
  | guildAnnouncement => 5
  | announcementThread => 10
  | publicThread => 11
  | privateThread => 12
  | guildStageVoice => 13
  | guildForum => 15

/-- All kinds. -/
def all : List ChannelKind :=
  [guildText, guildVoice, guildCategory, guildAnnouncement, announcementThread, publicThread,
   privateThread, guildStageVoice, guildForum]

/-- The kind of a number. -/
def ofCode? (code : UInt8) : Option ChannelKind :=
  all.find? fun kind => kind.code == code

/-- Whether it is a thread inside another channel. -/
def isThread : ChannelKind → Bool
  | announcementThread | publicThread | privateThread => true
  | _ => false

/-- The kind as it is printed. -/
def name : ChannelKind → String
  | guildText => "GuildText"
  | guildVoice => "GuildVoice"
  | guildCategory => "GuildCategory"
  | guildAnnouncement => "GuildAnnouncement"
  | announcementThread => "AnnouncementThread"
  | publicThread => "PublicThread"
  | privateThread => "PrivateThread"
  | guildStageVoice => "GuildStageVoice"
  | guildForum => "GuildForum"

/-- What is said of a code that names no channel kind. -/
def unknownCode (code : UInt8) : String :=
  "unknown channel kind code " ++ toString code.toNat

theorem ofCode?_code (kind : ChannelKind) : ofCode? kind.code = some kind := by
  cases kind <;> rfl

end ChannelKind

end SlashCommands
