import SlashCommands.Invocation.Wire
import SlashCommands.Proofs.PayloadRoundTrip
import SlashCommands.Proofs.PermissionNames

/-!
# Invocations come back from JSON

The value of an option is not tagged with its kind; it comes back as what it was because no two
kinds have a JSON form in common (`OptionValue.ofJson?_toJson`). A double that is not finite is
written as null, which is the form of no value (`OptionValue.ofJson?_toJson_eq_none`). All other
parts of an invocation come back whatever they are: permissions by their names, and absent records
as null (`Json.orNone_ofOption`). So an invocation is read back exactly if its doubles are finite,
and nothing else is ever read from its form (`Invocation.comes_back_iff`).
-/

namespace SlashCommands

/-! ## Fields that are always written -/

namespace Json

theorem record?_fields {fields : List (String × Json)} {names : List String}
    (hf : fields.map (·.1) = names) (hn : names.Nodup) :
    (obj fields).record? names = some (fields.map fun field => some field.2) := by
  have hwritten : written (fields.map fun field => (field.1, some field.2)) = fields := by
    simp [written, List.filterMap_map]
  have hnames : (fields.map fun field => (field.1, some field.2)).map (·.1) = names := by
    rw [List.map_map]
    exact hf
  have hrecord := record?_written hnames hn
  rwa [hwritten, List.map_map] at hrecord

/-- Absence is written as null, so what is there must not be. -/
theorem orNone_ofOption {α : Type} {read : Json → Option α} {write : α → Json} {x? : Option α}
    (h : ∀ x ∈ x?, write x ≠ null ∧ read (write x) = some x) :
    orNone read (some (ofOption write x?)) = some x? := by
  cases x? with
  | none => rfl
  | some x =>
    obtain ⟨hnull, hread⟩ := h x rfl
    rw [ofOption]
    rcases hw : write x <;> simp_all [orNone]

theorem orNone_str (text? : Option String) :
    orNone readString (some (ofOption str text?)) = some text? :=
  orNone_ofOption fun _ _ => ⟨by rintro ⟨⟩, rfl⟩

end Json

/-! ## Options -/

namespace OptionValue

/-- Every value but an infinite double, or one that is no number. -/
def IsFinite : OptionValue → Prop
  | float x => x.isFinite = true
  | _ => True

variable {v : OptionValue}

/-- Each kind is tried after those that could be mistaken for it. -/
theorem ofJson?_toJson (h : v.IsFinite) : ofJson? v.toJson = some v := by
  cases v with
  | boolean b => rfl
  | integer i => simp [toJson, ofJson?, Number.ofJson?, int64OfInt?_toInt, ofNumber]
  | float x =>
    rw [toJson, Json.ofBinary64_of_isFinite h]
    rfl
  | string text => rfl

theorem ofJson?_toJson_eq_none (h : ¬ v.IsFinite) : ofJson? v.toJson = none := by
  cases v with
  | float x =>
    have hinfinite : ¬ x.isFinite = true := h
    rw [toJson, Json.ofBinary64, if_neg hinfinite]
    rfl
  | boolean b => exact absurd trivial h
  | integer i => exact absurd trivial h
  | string text => exact absurd trivial h

/-- Options are read as they were, or not at all. -/
theorem readMap_eq_some_iff {options options' : SortedMap String OptionValue} :
    Json.readMap ofJson? (Json.ofMap toJson options) = some options' ↔
      (∀ e ∈ options.entries, e.2.IsFinite) ∧ options' = options := by
  by_cases h : ∀ e ∈ options.entries, e.2.IsFinite
  · rw [Json.readMap_ofMap fun e he => ofJson?_toJson (h e he), Option.some.injEq, eq_comm]
    exact (and_iff_right h).symm
  · refine iff_of_false (fun hread => h fun e he => ?_) fun hand => h hand.1
    by_contra hinfinite
    have hnone : (options.entries.map fun e => (e.1, e.2.toJson)).mapM
        (fun field => (ofJson? field.2).map fun value => (field.1, value)) = none :=
      mapM_eq_none_iff.2 ⟨_, List.mem_map_of_mem he, by simp [ofJson?_toJson_eq_none hinfinite]⟩
    rw [Json.ofMap, Json.readMap, hnone] at hread
    cases hread

end OptionValue

/-! ## Members -/

theorem readIdName_idNameToJson (id name : String) :
    readIdName (idNameToJson id name) = some (id, name) := by
  rw [readIdName, idNameToJson]
  refine Json.bind_of_some (Json.record?_fields rfl (by decide)) ?_
  exact Json.bind_of_some (rfl : _ = some id) (Json.bind_of_some (rfl : _ = some name) rfl)

theorem Permission.ofJson?_toJson (p : Permission) : ofJson? p.toJson = some p :=
  p.ofText?_name

theorem Member.ofJson?_toJson (m : Member) : ofJson? m.toJson = some m := by
  have hpermissions : Json.orElse (Json.readList Permission.ofJson?) []
      (some (.arr (m.permissions.toList.map Permission.toJson))) = some m.permissions.toList :=
    Json.readList_map fun p _ => p.ofJson?_toJson
  have hset : SortedSet.ofList m.permissions.toList = m.permissions :=
    SortedSet.eq_of_mem_iff fun _ => SortedSet.mem_ofList
  have hroles : Json.orElse (Json.readList readIdName) []
      (some (.arr (m.roles.map fun role => idNameToJson role.id role.name)))
      = some (m.roles.map fun role => (role.id, role.name)) := by
    have hread : Json.readList readIdName
        (.arr ((m.roles.map fun role => (role.id, role.name)).map
          fun role => idNameToJson role.1 role.2))
        = some (m.roles.map fun role => (role.id, role.name)) :=
      Json.readList_map fun role _ => readIdName_idNameToJson role.1 role.2
    rwa [List.map_map] at hread
  have hback : (m.roles.map fun role => (role.id, role.name)).map
      (fun role => (⟨role.1, role.2⟩ : RoleRef)) = m.roles := by
    rw [List.map_map]
    exact List.map_id m.roles
  rw [ofJson?, toJson]
  refine Json.bind_of_some (Json.record?_fields rfl (by decide)) ?_
  simp only [List.map_cons, List.map_nil]
  refine Json.bind_of_some (rfl : _ = some m.userId) ?_
  refine Json.bind_of_some hpermissions ?_
  refine Json.bind_of_some hroles ?_
  rw [hset, hback]
  rfl

/-! ## Invocations -/

namespace Invocation

variable {i j : Invocation}

theorem orNone_channel (channel? : Option ChannelRef) :
    Json.orNone readIdName (some (Json.ofOption (fun c => idNameToJson c.id c.name) channel?))
      = some (channel?.map fun c => (c.id, c.name)) := by
  have hread : ∀ pair? : Option (String × String), Json.orNone readIdName
      (some (Json.ofOption (fun c => idNameToJson c.1 c.2) pair?)) = some pair? := fun _ =>
    Json.orNone_ofOption fun c _ => ⟨by rintro ⟨⟩, readIdName_idNameToJson c.1 c.2⟩
  cases channel? with
  | none => exact hread none
  | some c => exact hread (some (c.id, c.name))

theorem orNone_member (member? : Option Member) :
    Json.orNone Member.ofJson? (some (Json.ofOption Member.toJson member?)) = some member? :=
  Json.orNone_ofOption fun m _ => ⟨by rintro ⟨⟩, m.ofJson?_toJson⟩

theorem record?_toJson (i : Invocation) : i.toJson.record? fieldNames
    = some [some (.str i.command), some (Json.ofOption Json.str i.subgroup),
      some (Json.ofOption Json.str i.subcommand), some (Json.ofMap OptionValue.toJson i.options),
      some (Json.ofOption (fun c => idNameToJson c.id c.name) i.channel),
      some (Json.ofOption Json.str i.guildId), some (Json.ofOption Member.toJson i.member)] :=
  Json.record?_fields rfl (by decide)

/-- Whether an invocation is read back depends on its options alone. -/
theorem ofJson?_toJson (i : Invocation) : ofJson? i.toJson
    = (Json.readMap OptionValue.ofJson? (Json.ofMap OptionValue.toJson i.options)).map
      fun options => { i with options } := by
  have hchannel : (i.channel.map fun c => (c.id, c.name)).map
      (fun c => (⟨c.1, c.2⟩ : ChannelRef)) = i.channel := by
    cases i.channel <;> rfl
  rw [ofJson?, record?_toJson]
  simp only [Option.bind_eq_bind, Option.bind_some, Json.need, Json.readString, Json.orNone_str,
    Json.orElse, orNone_channel, orNone_member, hchannel]
  generalize Json.readMap OptionValue.ofJson? (Json.ofMap OptionValue.toJson i.options) = options?
  cases options? <;> rfl

/-- An invocation is read back as it was exactly if its doubles are finite. What is read from its
form has the same path, and each of its options is of the kind that it was. -/
theorem comes_back_iff (i : Invocation) :
    (ofJson? i.toJson = some i ↔ ∀ e ∈ i.options.entries, e.2.IsFinite)
      ∧ ∀ j, ofJson? i.toJson = some j → j = i ∧ j.path = i.path
        ∧ ∀ name, (j.options.find? name).map OptionValue.kind
          = (i.options.find? name).map OptionValue.kind := by
  have hread : ∀ j, ofJson? i.toJson = some j ↔
      (∀ e ∈ i.options.entries, e.2.IsFinite) ∧ j = i := by
    intro j
    simp only [ofJson?_toJson, Option.map_eq_some_iff, OptionValue.readMap_eq_some_iff]
    constructor
    · rintro ⟨_, ⟨hfinite, rfl⟩, rfl⟩
      exact ⟨hfinite, rfl⟩
    · rintro ⟨hfinite, rfl⟩
      exact ⟨_, ⟨hfinite, rfl⟩, rfl⟩
  refine ⟨(hread i).trans (and_iff_left rfl), fun j hj => ?_⟩
  obtain ⟨-, rfl⟩ := (hread j).1 hj
  exact ⟨rfl, rfl, fun _ => rfl⟩

end Invocation

end SlashCommands
