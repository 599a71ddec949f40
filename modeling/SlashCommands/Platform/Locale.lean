/-!
# Locales

The locale codes the platform accepts for localized descriptions. Codes are compared exactly.
-/

namespace SlashCommands

/-- The codes of the locales that the platform translates for. -/
def locales : List String :=
  ["id", "da", "de", "en-GB", "en-US", "es-ES", "es-419", "fr", "hr", "it", "lt", "hu", "nl", "no",
   "pl", "pt-BR", "ro", "fi", "sv-SE", "vi", "tr", "cs", "el", "bg", "ru", "uk", "hi", "th",
   "zh-CN", "ja", "zh-TW", "ko"]

/-- Whether the platform knows the locale. -/
def isLocale (code : String) : Bool :=
  locales.contains code

end SlashCommands
