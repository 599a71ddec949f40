import SlashCommands.Data.SortedMap
import SlashCommands.Text.Letters

/-!
# Permissions

The platform lists its permissions in a table; a permission is a place in it, and its bit in a
member's bitfield is the bit of that place. A name is recognised by its ASCII letters and digits
alone, so `MANAGE_GUILD`, `ManageGuild` and `manage guild` are one permission.
-/

namespace SlashCommands

/-- A place in the platform's table of permissions. -/
structure Permission where
  index : Fin 41
deriving DecidableEq, Inhabited

namespace Permission

/-- The names of the permissions, each at the place of its bit. -/
def names : Vector String 41 := #v[
  "CREATE_INSTANT_INVITE", "KICK_MEMBERS", "BAN_MEMBERS", "ADMINISTRATOR", "MANAGE_CHANNELS",
  "MANAGE_GUILD", "ADD_REACTIONS", "VIEW_AUDIT_LOG", "PRIORITY_SPEAKER", "STREAM", "VIEW_CHANNEL",
  "SEND_MESSAGES", "SEND_TTS_MESSAGES", "MANAGE_MESSAGES", "EMBED_LINKS", "ATTACH_FILES",
  "READ_MESSAGE_HISTORY", "MENTION_EVERYONE", "USE_EXTERNAL_EMOJIS", "VIEW_GUILD_INSIGHTS",
  "CONNECT", "SPEAK", "MUTE_MEMBERS", "DEAFEN_MEMBERS", "MOVE_MEMBERS", "USE_VAD",
  "CHANGE_NICKNAME", "MANAGE_NICKNAMES", "MANAGE_ROLES", "MANAGE_WEBHOOKS",
  "MANAGE_GUILD_EXPRESSIONS", "USE_APPLICATION_COMMANDS", "REQUEST_TO_SPEAK", "MANAGE_EVENTS",
  "MANAGE_THREADS", "CREATE_PUBLIC_THREADS", "CREATE_PRIVATE_THREADS", "USE_EXTERNAL_STICKERS",
  "SEND_MESSAGES_IN_THREADS", "USE_EMBEDDED_ACTIVITIES", "MODERATE_MEMBERS"]

/-- The name of a permission. -/
def name (p : Permission) : String :=
  names[p.index]

/-- All permissions, from the lowest bit on. -/
def all : List Permission :=
  (List.finRange 41).map Permission.mk

/-- The permission that implies every other one. -/
def administrator : Permission :=
  ⟨3⟩

/-- The bit of a permission, as a number. -/
def bit (p : Permission) : Nat :=
  Nat.pow 2 p.index.val

/-- The bits of the listed permissions together; a repeated permission counts once. -/
def bitfield (permissions : List Permission) : Nat :=
  permissions.foldl (fun bits p => bits ||| p.bit) 0

/-- The ASCII letters and digits of a text, in capitals. -/
def squash (text : String) : List Char :=
  (text.toList.filter fun c => Text.isAsciiLetter c || Text.isAsciiDigit c).map fun c =>
    if 'a' ≤ c && c ≤ 'z' then Char.ofNat (c.toNat - 32) else c

/-- The permission a text names, whatever its case and the marks between its words. -/
def ofText? (text : String) : Option Permission :=
  let wanted := squash text
  if wanted.isEmpty then none else all.find? fun p => squash p.name == wanted

/-- What is said of a text that names no permission. -/
def unknownText (text : String) : String :=
  "unknown permission '" ++ text ++ "'"

instance : Ord Permission := ⟨fun p q => compare p.index.val q.index.val⟩

instance : Std.TransOrd Permission where
  eq_swap {p q} := by
    change compare p.index.val q.index.val = (compare q.index.val p.index.val).swap
    exact Std.OrientedCmp.eq_swap
  isLE_trans {p q r} hpq hqr := by
    change (compare p.index.val r.index.val).isLE
    change (compare p.index.val q.index.val).isLE at hpq
    change (compare q.index.val r.index.val).isLE at hqr
    exact Std.TransCmp.isLE_trans hpq hqr

instance : Std.LawfulEqOrd Permission where
  compare_self {p} := by
    change compare p.index.val p.index.val = .eq
    exact Std.ReflCmp.compare_self
  eq_of_compare {p q} h := by
    change compare p.index.val q.index.val = .eq at h
    exact congrArg Permission.mk (Fin.ext (Std.LawfulEqCmp.eq_of_compare h))

end Permission

end SlashCommands
