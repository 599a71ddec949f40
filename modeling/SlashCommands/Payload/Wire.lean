import SlashCommands.Json
import SlashCommands.Payload

/-!
# Payloads as JSON

`toJson` leaves out what is empty, false or absent; `ofJson?` supplies it again. Literals keep their
kind: an integer stays an integer, a double a double, and a text that looks like a number a text. A
whole number too large for an integer literal is read as a double.
-/

namespace SlashCommands

namespace Number

/-- A number as it is sent. -/
def toJson : Number → Json
  | int value => .int value.toInt
  | float value => .ofBinary64 value

/-- Reads a number. An integer beyond 64 bits is read as a double. -/
def ofJson? : Json → Option Number
  | .int i =>
    match int64OfInt? i with
    | some value => some (int value)
    | none => some (float (.ofInt i))
  | .float value => some (float value)
  | _ => none

end Number

namespace Choice

/-- A choice as it is sent. -/
def toJson : Choice → Json
  | integer value => .int value.toInt
  | float value => .ofBinary64 value
  | string value => .str value

/-- Reads a choice by its shape. -/
def ofJson? : Json → Option Choice
  | .str value => some (string value)
  | value => (Number.ofJson? value).map ofNumber

end Choice

namespace ChoicePayload

/-- A choice with the text that is shown of it. -/
def toJson (c : ChoicePayload) : Json :=
  .obj [("name", .str c.name), ("value", c.value.toJson)]

/-- Reads a choice and its text, which may differ. -/
def ofJson? (value : Json) : Option ChoicePayload := do
  let [name, value] ← value.record? ["name", "value"] | none
  let name ← Json.need Json.readString name
  let value ← Json.need Choice.ofJson? value
  return ⟨name, value⟩

end ChoicePayload

/-- A field that is written only when it holds something. -/
def Json.fieldUnless (isEmpty : Bool) (name : String) (value : Json) : List (String × Json) :=
  if isEmpty then [] else [(name, value)]

/-- A field that is left out when there is no value. -/
def Json.optionalField {α : Type} (name : String) (write : α → Json) :
    Option α → List (String × Json)
  | none => []
  | some value => [(name, write value)]

/-- A bound of a length as it is sent. -/
def uint16ToJson (n : UInt16) : Json :=
  .int n.toNat

/-- Reads a number of sixteen bits. -/
def readUInt16 (value : Json) : Option UInt16 :=
  (Json.readBelow 65536 value).map .ofNat

/-- Reads a number of eight bits. -/
def readUInt8 (value : Json) : Option UInt8 :=
  (Json.readBelow 256 value).map .ofNat

/-- Translations as they are sent. -/
def localizationsToJson (m : Localizations) : Json :=
  Json.ofMap Json.str m

/-- Reads translations. Of two for one locale the last stays. -/
def readLocalizations (value : Json) : Option Localizations :=
  Json.readMap Json.readString value

namespace OptionPayload

mutual

/-- The option, without the fields that hold nothing. -/
def toJson : OptionPayload → Json
  | ⟨kind, name, description, localizations, required, choices, options, channelTypes, minValue,
      maxValue, minLength, maxLength, autocomplete⟩ =>
    .obj ([("type", .int kind.code.toNat), ("name", .str name), ("description", .str description)]
      ++ Json.fieldUnless localizations.isEmpty "description_localizations"
        (localizationsToJson localizations)
      ++ Json.fieldUnless (!required) "required" (.bool required)
      ++ Json.fieldUnless choices.isEmpty "choices" (.arr (choices.map ChoicePayload.toJson))
      ++ Json.fieldUnless options.isEmpty "options" (.arr (toJsonAll options))
      ++ Json.fieldUnless channelTypes.isEmpty "channel_types"
        (.arr (channelTypes.map fun kind => .int kind.code.toNat))
      ++ Json.optionalField "min_value" Number.toJson minValue
      ++ Json.optionalField "max_value" Number.toJson maxValue
      ++ Json.optionalField "min_length" uint16ToJson minLength
      ++ Json.optionalField "max_length" uint16ToJson maxLength
      ++ Json.fieldUnless (!autocomplete) "autocomplete" (.bool autocomplete))

/-- Options in their order. -/
def toJsonAll : List OptionPayload → List Json
  | [] => []
  | option :: options => option.toJson :: toJsonAll options

end

/-- The fields of an option, in their order. -/
def fieldNames : List String :=
  ["type", "name", "description", "description_localizations", "required", "choices", "options",
   "channel_types", "min_value", "max_value", "min_length", "max_length", "autocomplete"]

/-- Reads an option; the fuel bounds how deep options are nested. -/
def readAt : Nat → Json → Option OptionPayload
  | 0, _ => none
  | fuel + 1, value => do
    let [kind, name, description, localizations, required, choices, options, channelTypes, minValue,
      maxValue, minLength, maxLength, autocomplete] ← value.record? fieldNames | none
    let kind ← Json.need (fun v => (readUInt8 v).bind OptionKind.ofCode?) kind
    let name ← Json.need Json.readString name
    let description ← Json.need Json.readString description
    let localizations ← Json.orElse readLocalizations .empty localizations
    let required ← Json.orElse Json.readBool false required
    let choices ← Json.orElse (Json.readList ChoicePayload.ofJson?) [] choices
    let options ← Json.orElse (Json.readList (readAt fuel)) [] options
    let channelTypes ← Json.orElse
      (Json.readList fun v => (readUInt8 v).bind ChannelKind.ofCode?) [] channelTypes
    let minValue ← Json.orNone Number.ofJson? minValue
    let maxValue ← Json.orNone Number.ofJson? maxValue
    let minLength ← Json.orNone readUInt16 minLength
    let maxLength ← Json.orNone readUInt16 maxLength
    let autocomplete ← Json.orElse Json.readBool false autocomplete
    return ⟨kind, name, description, localizations, required, choices, options, channelTypes,
      minValue, maxValue, minLength, maxLength, autocomplete⟩

/-- Reads an option with all options inside it. -/
def ofJson? (value : Json) : Option OptionPayload :=
  readAt (value.depth + 1) value

end OptionPayload

namespace CommandPayload

/-- The command, without the fields that hold nothing. -/
def toJson (p : CommandPayload) : Json :=
  .obj ([("name", .str p.name), ("type", .int p.kind.toNat), ("description", .str p.description)]
    ++ Json.fieldUnless p.localizations.isEmpty "description_localizations"
      (localizationsToJson p.localizations)
    ++ Json.fieldUnless p.options.isEmpty "options" (.arr (OptionPayload.toJsonAll p.options))
    ++ Json.optionalField "default_member_permissions" Json.str p.memberPermissions)

/-- The fields of a command, in their order. -/
def fieldNames : List String :=
  ["name", "type", "description", "description_localizations", "options",
   "default_member_permissions"]

/-- Reads a command. The name, the kind and the description are needed. -/
def ofJson? (value : Json) : Option CommandPayload := do
  let [name, kind, description, localizations, options, memberPermissions] ←
    value.record? fieldNames | none
  let name ← Json.need Json.readString name
  let kind ← Json.need readUInt8 kind
  let description ← Json.need Json.readString description
  let localizations ← Json.orElse readLocalizations .empty localizations
  let options ← Json.orElse (Json.readList OptionPayload.ofJson?) [] options
  let memberPermissions ← Json.orNone Json.readString memberPermissions
  return ⟨name, kind, description, localizations, options, memberPermissions⟩

end CommandPayload

end SlashCommands
