import SlashCommands.Proofs.JsonRecord
import SlashCommands.Proofs.NumeralText
import SlashCommands.Proofs.PayloadShape

/-!
# Payloads come back from JSON

A payload whose doubles are finite is read back from its JSON form as it was, literals of either
kind and options at any depth included, and its JSON form has no field for what is empty, false or
absent (`CommandPayload.reads_back`). The options come back by recursion on their depth
(`OptionPayload.readAt_toJson`): the options inside of one are nested less deep than it is.
-/

namespace SlashCommands

open Json (written partUnless)

/-! ## Literals -/

/-- Every number but an infinite double, or one that is no number. -/
def Number.IsFinite : Number → Prop
  | int _ => True
  | float x => x.isFinite = true

/-- Every choice but an infinite double, or one that is no number. -/
def Choice.IsFinite : Choice → Prop
  | integer _ => True
  | float x => x.isFinite = true
  | string _ => True

namespace Number

variable {n : Number}

/-- A double is read as a double, also where it is whole. -/
theorem ofJson?_toJson (h : n.IsFinite) : ofJson? n.toJson = some n := by
  cases n with
  | int v => simp [toJson, ofJson?, int64OfInt?_toInt]
  | float x =>
    rw [toJson, Json.ofBinary64_of_isFinite h]
    rfl

theorem terse_toJson (h : n.IsFinite) : n.toJson.Terse := by
  cases n with
  | int v => exact .int _
  | float x =>
    rw [toJson, Json.ofBinary64_of_isFinite h]
    exact .float x

theorem orNone_toJson {n? : Option Number} (h : ∀ n ∈ n?, n.IsFinite) :
    Json.orNone ofJson? (n?.map toJson) = some n? :=
  Json.orNone_map fun n hn => ⟨(terse_toJson (h n hn)).ne_null, ofJson?_toJson (h n hn)⟩

end Number

namespace Choice

variable {c : Choice}

/-- A text is read as a text, also where it looks like a number. -/
theorem ofJson?_toJson (h : c.IsFinite) : ofJson? c.toJson = some c := by
  cases c with
  | integer v => simp [toJson, ofJson?, Number.ofJson?, int64OfInt?_toInt, ofNumber]
  | float x =>
    rw [toJson, Json.ofBinary64_of_isFinite h]
    rfl
  | string text => rfl

theorem terse_toJson (h : c.IsFinite) : c.toJson.Terse := by
  cases c with
  | integer v => exact .int _
  | float x =>
    rw [toJson, Json.ofBinary64_of_isFinite h]
    exact .float x
  | string text => exact .str text

end Choice

namespace ChoicePayload

variable {c : ChoicePayload}

theorem toJson_eq (c : ChoicePayload) :
    c.toJson = .obj (written [("name", some (.str c.name)), ("value", some c.value.toJson)]) :=
  rfl

theorem record?_toJson (c : ChoicePayload) :
    c.toJson.record? ["name", "value"] = some [some (.str c.name), some c.value.toJson] := by
  rw [toJson_eq]
  exact Json.record?_written rfl (by decide)

theorem ofJson?_toJson (h : c.value.IsFinite) : ofJson? c.toJson = some c := by
  rw [ofJson?]
  refine Json.bind_of_some (record?_toJson c) ?_
  refine Json.bind_of_some (rfl : _ = some c.name) ?_
  exact Json.bind_of_some (Choice.ofJson?_toJson h) rfl

theorem terse_toJson (h : c.value.IsFinite) : c.toJson.Terse := by
  rw [toJson_eq]
  refine Json.terse_written ?_
  simp [Json.Terse.str, Choice.terse_toJson h]

end ChoicePayload

/-! ## Codes, lengths and translations -/

theorem readUInt8_toNat (n : UInt8) : readUInt8 (.int n.toNat) = some n := by
  rw [readUInt8, Json.readBelow_ofNat n.toNat_lt]
  simp

theorem readUInt16_toJson (n : UInt16) : readUInt16 (uint16ToJson n) = some n := by
  rw [readUInt16, uint16ToJson, Json.readBelow_ofNat n.toNat_lt]
  simp

theorem orNone_uint16ToJson (n? : Option UInt16) :
    Json.orNone readUInt16 (n?.map uint16ToJson) = some n? :=
  Json.orNone_map fun n _ => ⟨(Json.Terse.int _).ne_null, readUInt16_toJson n⟩

theorem readLocalizations_toJson (l : Localizations) :
    readLocalizations (localizationsToJson l) = some l :=
  Json.readMap_ofMap fun _ _ => rfl

/-! ## Options -/

namespace OptionPayload

/-- The doubles among the option's own literals are finite. -/
structure FiniteLiterals (o : OptionPayload) : Prop where
  choices : ∀ c ∈ o.choices, c.value.IsFinite
  minValue : ∀ n ∈ o.minValue, n.IsFinite
  maxValue : ∀ n ∈ o.maxValue, n.IsFinite

/-- The fields of an option, of which the first three are always there. -/
def parts (o : OptionPayload) : List (String × Option Json) :=
  [("type", some (.int o.kind.code.toNat)), ("name", some (.str o.name)),
    ("description", some (.str o.description)),
    ("description_localizations",
      partUnless o.localizations.isEmpty (localizationsToJson o.localizations)),
    ("required", partUnless (!o.required) (.bool o.required)),
    ("choices", partUnless o.choices.isEmpty (.arr (o.choices.map ChoicePayload.toJson))),
    ("options", partUnless o.options.isEmpty (.arr (o.options.map toJson))),
    ("channel_types", partUnless o.channelTypes.isEmpty
      (.arr (o.channelTypes.map fun kind => .int kind.code.toNat))),
    ("min_value", o.minValue.map Number.toJson), ("max_value", o.maxValue.map Number.toJson),
    ("min_length", o.minLength.map uint16ToJson), ("max_length", o.maxLength.map uint16ToJson),
    ("autocomplete", partUnless (!o.autocomplete) (.bool o.autocomplete))]

theorem toJsonAll_eq : ∀ options : List OptionPayload, toJsonAll options = options.map toJson
  | [] => rfl
  | option :: options => by rw [toJsonAll, toJsonAll_eq options, List.map_cons]

theorem toJson_eq (o : OptionPayload) : o.toJson = .obj (written o.parts) := by
  rcases o
  simp only [toJson, parts, toJsonAll_eq, Json.written_cons_some, Json.written_cons_partUnless,
    Json.written_cons_map, Json.written_nil, List.cons_append, List.nil_append, List.append_nil,
    List.append_assoc]

theorem record?_toJson (o : OptionPayload) :
    o.toJson.record? fieldNames = some (o.parts.map (·.2)) := by
  rw [toJson_eq]
  exact Json.record?_written rfl (by decide)

theorem depth_toJson_lt {o i : OptionPayload} (h : i ∈ o.options) :
    i.toJson.depth < o.toJson.depth := by
  have hm : ("options", Json.arr (o.options.map toJson)) ∈ written o.parts := by
    refine Json.mem_written.2 ?_
    have hne : o.options.isEmpty = false := by
      cases ho : o.options with
      | nil => simp [ho] at h
      | cons first rest => rfl
    simp [parts, partUnless, hne]
  have hfield : (Json.arr (o.options.map toJson)).depth ≤ Json.depthFields (written o.parts) :=
    Json.depth_le_of_mem_fields hm
  have hitem : i.toJson.depth ≤ Json.depthItems (o.options.map toJson) :=
    Json.depth_le_of_mem (List.mem_map_of_mem h)
  rw [toJson_eq o, Json.depth]
  rw [Json.depth] at hfield
  omega

theorem forall_among_iff {p : OptionPayload → Prop} {options : List OptionPayload} :
    (∀ o, Among options o → p o) ↔ ∀ o ∈ options, p o ∧ ∀ i, Among o.options i → p i := by
  constructor
  · exact fun h o ho => ⟨h o (.here ho), fun i hi => h i (.under ho hi)⟩
  · rintro h o (ho | ⟨houter, ho⟩)
    · exact (h o ho).1
    · exact (h _ houter).2 o ho

theorem readAt_toJson : ∀ (fuel : Nat) {o : OptionPayload}, o.FiniteLiterals →
    (∀ i, Among o.options i → i.FiniteLiterals) → o.toJson.depth < fuel →
      readAt fuel o.toJson = some o
  | 0, o, _, _, hd => absurd hd (Nat.not_lt_zero _)
  | fuel + 1, o, hf, hin, hd => by
    have hkind : Json.need (fun v => (readUInt8 v).bind OptionKind.ofCode?)
        (some (.int o.kind.code.toNat)) = some o.kind := by
      rw [Json.need, Option.bind_some, readUInt8_toNat, Option.bind_some, OptionKind.ofCode?_code]
    have hlocalizations : Json.orElse readLocalizations .empty
        (partUnless o.localizations.isEmpty (localizationsToJson o.localizations))
        = some o.localizations :=
      Json.orElse_partUnless SortedMap.eq_empty_of_isEmpty (readLocalizations_toJson _)
    have hrequired : Json.orElse Json.readBool false (partUnless (!o.required) (.bool o.required))
        = some o.required :=
      Json.orElse_partUnless (by simp) rfl
    have hchoices : Json.orElse (Json.readList ChoicePayload.ofJson?) []
        (partUnless o.choices.isEmpty (.arr (o.choices.map ChoicePayload.toJson)))
        = some o.choices :=
      Json.orElse_partUnless List.isEmpty_iff.1
        (Json.readList_map fun c hc => ChoicePayload.ofJson?_toJson (hf.choices c hc))
    have hoptions : Json.orElse (Json.readList (readAt fuel)) []
        (partUnless o.options.isEmpty (.arr (o.options.map toJson))) = some o.options := by
      refine Json.orElse_partUnless List.isEmpty_iff.1 (Json.readList_map fun i hi => ?_)
      obtain ⟨hfi, hini⟩ := forall_among_iff.1 hin i hi
      exact readAt_toJson fuel hfi hini
        (Nat.lt_of_lt_of_le (depth_toJson_lt hi) (Nat.le_of_lt_succ hd))
    have hchannelTypes : Json.orElse
        (Json.readList fun v => (readUInt8 v).bind ChannelKind.ofCode?) []
        (partUnless o.channelTypes.isEmpty
          (.arr (o.channelTypes.map fun kind => .int kind.code.toNat))) = some o.channelTypes := by
      refine Json.orElse_partUnless List.isEmpty_iff.1 (Json.readList_map fun kind _ => ?_)
      rw [readUInt8_toNat, Option.bind_some, ChannelKind.ofCode?_code]
    have hminValue : Json.orNone Number.ofJson? (o.minValue.map Number.toJson) = some o.minValue :=
      Number.orNone_toJson hf.minValue
    have hmaxValue : Json.orNone Number.ofJson? (o.maxValue.map Number.toJson) = some o.maxValue :=
      Number.orNone_toJson hf.maxValue
    have hautocomplete : Json.orElse Json.readBool false
        (partUnless (!o.autocomplete) (.bool o.autocomplete)) = some o.autocomplete :=
      Json.orElse_partUnless (by simp) rfl
    rw [readAt]
    refine Json.bind_of_some (record?_toJson o) ?_
    simp only [parts, List.map_cons, List.map_nil]
    refine Json.bind_of_some hkind ?_
    refine Json.bind_of_some (rfl : _ = some o.name) ?_
    refine Json.bind_of_some (rfl : _ = some o.description) ?_
    refine Json.bind_of_some hlocalizations ?_
    refine Json.bind_of_some hrequired ?_
    refine Json.bind_of_some hchoices ?_
    refine Json.bind_of_some hoptions ?_
    refine Json.bind_of_some hchannelTypes ?_
    refine Json.bind_of_some hminValue ?_
    refine Json.bind_of_some hmaxValue ?_
    refine Json.bind_of_some (orNone_uint16ToJson o.minLength) ?_
    refine Json.bind_of_some (orNone_uint16ToJson o.maxLength) ?_
    refine Json.bind_of_some hautocomplete ?_
    cases o
    rfl

theorem ofJson?_toJson {o : OptionPayload} (h : o.FiniteLiterals)
    (hin : ∀ i, Among o.options i → i.FiniteLiterals) : ofJson? o.toJson = some o :=
  readAt_toJson _ h hin (Nat.lt_succ_self _)

theorem terse_toJson {o : OptionPayload} (h : o.FiniteLiterals)
    (hin : ∀ i, Among o.options i → i.FiniteLiterals) : o.toJson.Terse := by
  have hoptions : ∀ i ∈ o.options, i.toJson.Terse := fun i hi => by
    obtain ⟨hfi, hini⟩ := forall_among_iff.1 hin i hi
    exact terse_toJson hfi hini
  rw [toJson_eq]
  refine Json.terse_written ?_
  simp only [List.forall_mem_cons, List.not_mem_nil, false_imp_iff, implies_true, and_true]
  exact
    ⟨Json.terse_some (.int _), Json.terse_some (.str _), Json.terse_some (.str _),
      Json.terse_partUnless (Json.terse_ofMap · fun _ _ => .str _),
      Json.terse_partUnless_not,
      Json.terse_partUnless
        (Json.terse_list · fun c hc => ChoicePayload.terse_toJson (h.choices c hc)),
      Json.terse_partUnless (Json.terse_list · hoptions),
      Json.terse_partUnless (Json.terse_list · fun _ _ => .int _),
      Json.terse_map fun n hn => Number.terse_toJson (h.minValue n hn),
      Json.terse_map fun n hn => Number.terse_toJson (h.maxValue n hn),
      Json.terse_map fun _ _ => .int _, Json.terse_map fun _ _ => .int _,
      Json.terse_partUnless_not⟩
termination_by o.toJson.depth
decreasing_by exact depth_toJson_lt hi

end OptionPayload

/-! ## Payloads -/

namespace CommandPayload

/-- The fields of a payload, of which the first three are always there. -/
def parts (p : CommandPayload) : List (String × Option Json) :=
  [("name", some (.str p.name)), ("type", some (.int p.kind.toNat)),
    ("description", some (.str p.description)),
    ("description_localizations",
      partUnless p.localizations.isEmpty (localizationsToJson p.localizations)),
    ("options", partUnless p.options.isEmpty (.arr (p.options.map OptionPayload.toJson))),
    ("default_member_permissions", p.memberPermissions.map Json.str)]

theorem toJson_eq (p : CommandPayload) : p.toJson = .obj (written p.parts) := by
  simp only [toJson, parts, OptionPayload.toJsonAll_eq, Json.written_cons_some,
    Json.written_cons_partUnless, Json.written_cons_map, Json.written_nil, List.cons_append,
    List.nil_append, List.append_nil, List.append_assoc]

theorem record?_toJson (p : CommandPayload) :
    p.toJson.record? fieldNames = some (p.parts.map (·.2)) := by
  rw [toJson_eq]
  exact Json.record?_written rfl (by decide)

/-- What is left out when a payload is written is exactly what is put back when it is read: each
literal keeps its kind, and options come back at every depth. -/
theorem reads_back {p : CommandPayload}
    (h : ∀ o, OptionPayload.Among p.options o → o.FiniteLiterals) :
    p.toJson.Terse ∧ ofJson? p.toJson = some p := by
  have hfinite := OptionPayload.forall_among_iff.1 h
  constructor
  · rw [toJson_eq]
    refine Json.terse_written ?_
    simp only [List.forall_mem_cons, List.not_mem_nil, false_imp_iff, implies_true, and_true]
    exact
      ⟨Json.terse_some (.str _), Json.terse_some (.int _), Json.terse_some (.str _),
        Json.terse_partUnless (Json.terse_ofMap · fun _ _ => .str _),
        Json.terse_partUnless (Json.terse_list · fun o ho =>
          OptionPayload.terse_toJson (hfinite o ho).1 (hfinite o ho).2),
        Json.terse_map fun _ _ => .str _⟩
  · have hkind : Json.need readUInt8 (some (.int p.kind.toNat)) = some p.kind := by
      rw [Json.need, Option.bind_some, readUInt8_toNat]
    have hlocalizations : Json.orElse readLocalizations .empty
        (partUnless p.localizations.isEmpty (localizationsToJson p.localizations))
        = some p.localizations :=
      Json.orElse_partUnless SortedMap.eq_empty_of_isEmpty (readLocalizations_toJson _)
    have hoptions : Json.orElse (Json.readList OptionPayload.ofJson?) []
        (partUnless p.options.isEmpty (.arr (p.options.map OptionPayload.toJson)))
        = some p.options :=
      Json.orElse_partUnless List.isEmpty_iff.1 (Json.readList_map fun o ho =>
        OptionPayload.ofJson?_toJson (hfinite o ho).1 (hfinite o ho).2)
    have hpermissions : Json.orNone Json.readString (p.memberPermissions.map Json.str)
        = some p.memberPermissions :=
      Json.orNone_map fun _ _ => ⟨(Json.Terse.str _).ne_null, rfl⟩
    rw [ofJson?]
    refine Json.bind_of_some (record?_toJson p) ?_
    simp only [parts, List.map_cons, List.map_nil]
    refine Json.bind_of_some (rfl : _ = some p.name) ?_
    refine Json.bind_of_some hkind ?_
    refine Json.bind_of_some (rfl : _ = some p.description) ?_
    refine Json.bind_of_some hlocalizations ?_
    refine Json.bind_of_some hoptions ?_
    exact Json.bind_of_some hpermissions rfl

/-- Three choices that look alike, deep in the options: a double, a text and an integer. -/
def scorePayload : CommandPayload where
  name := "score"
  kind := chatInput
  description := "Keeps the score"
  localizations := SortedMap.ofList [("de", "Punkte"), ("fr", "Points")]
  options :=
    [.container .subcommandGroup "team" "Teams" .empty
      [.container .subcommand "add" "Adds points" .empty
        [{ OptionPayload.container .number "points" "How many" .empty [] with
          required := true
          choices := [⟨"2", .float (.ofInt 2)⟩, ⟨"2", .string "2"⟩, ⟨"2", .integer 2⟩]
          minValue := some (.float (.ofInt 2)) }]]]
  memberPermissions := none

theorem scorePayload_reads_back :
    (∀ o, OptionPayload.Among scorePayload.options o → o.FiniteLiterals)
      ∧ ofJson? scorePayload.toJson = some scorePayload := by
  have hcontainer : ∀ kind name text options,
      (OptionPayload.container kind name text .empty options).FiniteLiterals :=
    fun _ _ _ _ => ⟨by rintro c ⟨⟩, by rintro n ⟨⟩, by rintro n ⟨⟩⟩
  have htwo : (Binary64.ofInt 2).isFinite = true := by decide +kernel
  have h : ∀ o, OptionPayload.Among scorePayload.options o → o.FiniteLiterals := by
    refine OptionPayload.forall_among_iff.2 (List.forall_mem_singleton.2 ⟨hcontainer .., ?_⟩)
    refine OptionPayload.forall_among_iff.2 (List.forall_mem_singleton.2 ⟨hcontainer .., ?_⟩)
    refine OptionPayload.forall_among_iff.2 (List.forall_mem_singleton.2 ⟨⟨?_, ?_, ?_⟩, ?_⟩)
    · simp [Choice.IsFinite, htwo]
    · simp [Number.IsFinite, htwo]
    · rintro n ⟨⟩
    · exact OptionPayload.forall_among_iff.2 (by rintro o ⟨⟩)
  exact ⟨h, (reads_back h).2⟩

end CommandPayload

end SlashCommands
