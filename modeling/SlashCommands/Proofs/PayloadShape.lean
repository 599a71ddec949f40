import SlashCommands.Proofs.TypedLiterals

/-!
# The shape of a payload

The options of a payload stand for the arguments and nodes of a tree (`OptionPayload.From`), so they
nest as these do, and an option for a typed argument is one that the platform takes. Whatever was
called on its builder, the payload of a sealed command is well nested and well typed throughout
(`Builder.sealed_payload_shape`).
-/

namespace SlashCommands

open Checked

namespace ArgumentType

theorem code_optionKind (type : ArgumentType) :
    3 ≤ type.optionKind.code ∧ type.optionKind.code ≤ 11 := by
  cases type <;> simp only [optionKind, OptionKind.code] <;> decide

/-- But for the scope of a channel, the kind of the option tells the type. -/
theorem eq_of_optionKind {s t : ArgumentType} (h : s.optionKind = t.optionKind)
    (ht : t.isChannel = false) : s = t := by
  cases s <;> cases t <;> first | rfl | cases h; cases ht | cases h

theorem channelKinds_ne_nil {type : ArgumentType} :
    type.channelKinds ≠ [] ↔ type.optionKind = .channel := by
  cases type with
  | channel scope => cases scope <;> decide
  | _ => decide

end ArgumentType

namespace OptionPayload

/-! ## Options at any depth -/

/-- The option is one of these or stands under one of them, however deep. -/
inductive Among : List OptionPayload → OptionPayload → Prop
  | here {options : List OptionPayload} {o : OptionPayload} (h : o ∈ options) : Among options o
  | under {options : List OptionPayload} {outer o : OptionPayload} (h : outer ∈ options)
    (ho : Among outer.options o) : Among options o

/-- The option asks the member for a value; its kind is one of 3 to 11. -/
def IsArgument (o : OptionPayload) : Prop :=
  3 ≤ o.kind.code ∧ o.kind.code ≤ 11

instance (o : OptionPayload) : Decidable o.IsArgument :=
  inferInstanceAs (Decidable (_ ∧ _))

/-- The option only holds others; its kind is 1 or 2. -/
def IsContainer (o : OptionPayload) : Prop :=
  o.kind = .subcommand ∨ o.kind = .subcommandGroup

theorem IsContainer.not_isArgument {o : OptionPayload} (h : o.IsContainer) : ¬ o.IsArgument := by
  rcases h with h | h <;> rw [IsArgument, h] <;> decide

theorem isArgument_ofArgument (a : Argument) : (ofArgument a).IsArgument :=
  a.type.code_optionKind

/-- Subcommands under a group, arguments under a subcommand, nothing under an argument. -/
structure WellNested (o : OptionPayload) : Prop where
  group : o.kind = .subcommandGroup → ∀ inner ∈ o.options, inner.kind = .subcommand
  subcommand : o.kind = .subcommand → ∀ inner ∈ o.options, inner.IsArgument
  argument : o.IsArgument → o.options = []

/-- Literals are of the kind of the option, and limits stand only on the kinds they are for. -/
structure WellTyped (o : OptionPayload) : Prop where
  string : o.kind = .string → ∀ c ∈ o.choices, c.value.type = .string
  integer : o.kind = .integer → (∀ c ∈ o.choices, c.value.type = .integer)
    ∧ ∀ n, n ∈ o.minValue ∨ n ∈ o.maxValue → n.isInteger = true
  number : o.kind = .number → (∀ c ∈ o.choices, c.value.type = .float)
    ∧ ∀ n, n ∈ o.minValue ∨ n ∈ o.maxValue → n.isInteger = false
  choices : o.choices ≠ [] → o.kind = .string ∨ o.kind = .integer ∨ o.kind = .number
  bounds : o.minValue.isSome ∨ o.maxValue.isSome → o.kind = .integer ∨ o.kind = .number
  lengths : o.minLength.isSome ∨ o.maxLength.isSome → o.kind = .string
  short : ∀ n, n ∈ o.minLength ∨ n ∈ o.maxLength → n.toNat ≤ 6000
  ordered : ∀ lo ∈ o.minLength, ∀ hi ∈ o.maxLength, lo ≤ hi
  channels : o.channelTypes ≠ [] ↔ o.kind = .channel
  alone : o.choices ≠ [] → o.autocomplete = false ∧ o.minValue = none ∧ o.maxValue = none
    ∧ o.minLength = none ∧ o.maxLength = none

/-- What an option of a payload stands for; every argument has the property. -/
inductive From (p : Argument → Prop) : OptionPayload → Prop
  | argument {a : Argument} (h : p a) : From p (ofArgument a)
  | subcommand {s : Subcommand} (h : s.Each p) : From p (ofSubcommand s)
  | subgroup {g : Subgroup} (h : g.Each p) : From p (ofSubgroup g)

namespace From

variable {p : Argument → Prop} {o : OptionPayload}

theorem inner (h : From p o) : ∀ i ∈ o.options, From p i := by
  intro i hi
  cases h with
  | argument h => cases hi
  | subcommand h =>
    obtain ⟨a, ha, rfl⟩ := List.mem_map.1 hi
    exact .argument (h a ha)
  | subgroup h =>
    obtain ⟨s, hs, rfl⟩ := List.mem_map.1 hi
    exact .subcommand (h s hs)

theorem among {options : List OptionPayload} (h : ∀ o ∈ options, From p o) (ho : Among options o) :
    From p o := by
  induction ho with
  | here ho => exact h _ ho
  | under houter _ ih => exact ih (h _ houter).inner

theorem wellNested (h : From p o) : o.WellNested := by
  cases h with
  | @argument a h =>
    have ha := isArgument_ofArgument a
    exact ⟨fun hk => absurd ha (IsContainer.not_isArgument (.inr hk)),
      fun hk => absurd ha (IsContainer.not_isArgument (.inl hk)), fun _ => rfl⟩
  | subcommand h =>
    refine ⟨nofun, fun _ i hi => ?_, fun ha => absurd ha (IsContainer.not_isArgument (.inl rfl))⟩
    obtain ⟨a, -, rfl⟩ := List.mem_map.1 hi
    exact isArgument_ofArgument a
  | subgroup h =>
    refine ⟨fun _ i hi => ?_, nofun, fun ha => absurd ha (IsContainer.not_isArgument (.inr rfl))⟩
    obtain ⟨s, -, rfl⟩ := List.mem_map.1 hi
    rfl

end From

/-! ## Options of one kind -/

theorem wellTyped_container {kind : OptionKind} {name description : String}
    {localizations : Localizations} {options : List OptionPayload}
    (h : kind ≠ .channel) :
    (container kind name description localizations options).WellTyped := by
  constructor <;> simp [container, h]

section OfArgument

variable {a : Argument} (h : a.Typed)

include h

theorem type_of_choice {c : ChoicePayload} (hc : c ∈ (ofArgument a).choices) :
    c.value.type = a.type := by
  obtain ⟨c, hm, rfl⟩ := List.mem_map.1 hc
  exact h.choices c hm

theorem type_of_bound {n : Number} (hn : n ∈ a.min ∨ n ∈ a.max) :
    (Choice.ofNumber n).type = a.type :=
  hn.elim (h.min n) (h.max n)

theorem wellTyped_ofArgument : (ofArgument a).WellTyped where
  string hk c hc :=
    (type_of_choice h hc).trans (ArgumentType.eq_of_optionKind (t := .string) hk rfl)
  integer hk := by
    have ht := ArgumentType.eq_of_optionKind (t := .integer) hk rfl
    exact ⟨fun c hc => (type_of_choice h hc).trans ht,
      fun n hn => Choice.type_ofNumber.1 ((type_of_bound h hn).trans ht)⟩
  number hk := by
    have ht := ArgumentType.eq_of_optionKind (t := .float) hk rfl
    refine ⟨fun c hc => (type_of_choice h hc).trans ht, fun n hn => ?_⟩
    have hfloat := (type_of_bound h hn).trans ht
    cases n with
    | int v => cases hfloat
    | float x => rfl
  choices hne := by
    obtain ⟨c, hc⟩ := List.exists_mem_of_ne_nil _ hne
    have ht := type_of_choice h hc
    change a.type.optionKind = _ ∨ a.type.optionKind = _ ∨ a.type.optionKind = _
    rw [← ht]
    cases c.value with
    | integer v => exact .inr (.inl rfl)
    | float x => exact .inr (.inr rfl)
    | string text => exact .inl rfl
  bounds hb := by
    have hn : ∃ n, n ∈ a.min ∨ n ∈ a.max := by
      rcases hb with hb | hb <;> obtain ⟨n, hn⟩ := Option.isSome_iff_exists.1 hb
      · exact ⟨n, .inl hn⟩
      · exact ⟨n, .inr hn⟩
    obtain ⟨n, hn⟩ := hn
    change a.type.optionKind = _ ∨ a.type.optionKind = _
    rw [← type_of_bound h hn]
    cases n with
    | int v => exact .inl rfl
    | float x => exact .inr rfl
  lengths hl := by
    have ht : a.type = .string := h.lengths (by simpa [Argument.hasLength, ofArgument] using hl)
    change a.type.optionKind = _
    rw [ht]
    rfl
  short := h.short
  ordered := h.ordered
  channels := ArgumentType.channelKinds_ne_nil
  alone hne := by
    have hsome : a.hasChoices = true := by simpa [Argument.hasChoices, ofArgument] using hne
    simpa [Argument.hasBounds, Argument.hasLength, ofArgument, and_assoc] using h.alone hsome

end OfArgument

theorem From.wellTyped {o : OptionPayload} (h : From Argument.Typed o) : o.WellTyped := by
  cases h with
  | argument h => exact wellTyped_ofArgument h
  | subcommand h => exact wellTyped_container (by decide)
  | subgroup h => exact wellTyped_container (by decide)

end OptionPayload

/-! ## Payloads of sealed commands -/

namespace OptionPayload

/-- The options that a tree is compiled to. -/
def ofTree (t : Tree) : List OptionPayload :=
  t.arguments.map ofArgument ++ t.children.map ofChild

theorem from_ofTree {p : Argument → Prop} {t : Tree} (h : t.Each p) : ∀ o ∈ ofTree t, From p o := by
  intro o ho
  rcases List.mem_append.1 ho with ho | ho
  · obtain ⟨a, ha, rfl⟩ := List.mem_map.1 ho
    exact .argument (h.arguments a ha)
  · obtain ⟨c, hc, rfl⟩ := List.mem_map.1 ho
    cases c with
    | subcommand s => exact .subcommand (h.children _ hc)
    | subgroup g => exact .subgroup (h.children _ hc)

theorem isContainer_ofChild (c : Child) : (ofChild c).IsContainer := by
  cases c with
  | subcommand s => exact .inl rfl
  | subgroup g => exact .inr rfl

theorem apart_ofTree {t : Tree} (h : t.arguments = [] ∨ t.children = []) :
    (∀ o ∈ ofTree t, o.IsArgument) ∨ ∀ o ∈ ofTree t, o.IsContainer := by
  rcases h with h | h
  · right
    simp only [ofTree, h, List.map_nil, List.nil_append, List.forall_mem_map]
    exact fun c _ => isContainer_ofChild c
  · left
    simp only [ofTree, h, List.map_nil, List.append_nil, List.forall_mem_map]
    exact fun a _ => isArgument_ofArgument a

end OptionPayload

namespace Builder

variable {κ η : Type}

/-- What every argument of a sealed command has, every option of its payload stands for. -/
theorem from_of_sealed {p : Argument → Prop} {name description : String} {es : List (Edit κ)}
    {terminal : Draft.Terminal η} {s : Spec η κ}
    (h : (((new name description).edits es).finish terminal).2 = .ok s) (heach : s.tree.Each p)
    {o : OptionPayload} (ho : OptionPayload.Among s.payload.options o) :
    OptionPayload.From p o := by
  obtain ⟨documented, callbacks, handler, -, -, rfl⟩ :=
    Draft.finish_ok_iff.1 (finish_ok_iff.1 h).2
  exact OptionPayload.From.among (OptionPayload.from_ofTree heach) ho

/-- Literals enter by inference from a text, by the scan of a bound expression and with options that
may still change the type; each way ends with literals of the kind that is sent. -/
theorem sealed_payload_shape {name description : String} {es : List (Edit κ)}
    {terminal : Draft.Terminal η} {s : Spec η κ}
    (h : (((new name description).edits es).finish terminal).2 = .ok s) :
    ((∀ o ∈ s.payload.options, o.IsArgument) ∨ ∀ o ∈ s.payload.options, o.IsContainer)
      ∧ ∀ o, OptionPayload.Among s.payload.options o → o.WellNested ∧ o.WellTyped := by
  refine ⟨?_, fun o ho => ?_⟩
  · obtain ⟨documented, callbacks, handler, hp, -, rfl⟩ :=
      Draft.finish_ok_iff.1 (finish_ok_iff.1 h).2
    obtain ⟨-, -, hstructure, -, -⟩ := Draft.prepare_ok_iff.1 hp
    exact OptionPayload.apart_ofTree (Tree.apart_of_checkStructure hstructure)
  · have hfrom := from_of_sealed h (sealed_each Argument.typed_lasting h) ho
    exact ⟨hfrom.wellNested, hfrom.wellTyped⟩

/-- Choices of mixed numerals, a length, bounds, and options that turn a text into a double. -/
def pollEdits : List (Edit Unit) :=
  [.argument "ask open <title: 1 <= l <= 80> <weight: 1 | 2.5> [hours: 1 <= x <= 72]",
    .argumentWith
      { text := "ask close <share: string>", description := some "Share of the votes"
        choices := some [.integer 1, .float (.ofInt 2)], min := none, max := none
        minLength := none, maxLength := none, autocomplete := none },
    .argument "list <where: voice channel> [*like: string]", .autocomplete "list <like>" ()]

theorem pollEdits_payload_shape :
    ∃ s, (((new "poll" "Asks the members").edits pollEdits).finish (.action ())).2 = .ok s
      ∧ s.payload.options.length = 2
      ∧ ((∀ o ∈ s.payload.options, o.IsArgument) ∨ ∀ o ∈ s.payload.options, o.IsContainer)
      ∧ ∀ o, OptionPayload.Among s.payload.options o → o.WellNested ∧ o.WellTyped := by
  have h : ((((new "poll" "Asks the members").edits pollEdits).finish (.action ())).2.toOption.map
      fun s => s.payload.options.length) = some 2 := by
    decide +kernel
  rcases hs : (((new "poll" "Asks the members").edits pollEdits).finish (.action ())).2 with
    fault | s
  · rw [hs] at h
    cases h
  · rw [hs] at h
    exact ⟨s, rfl, Option.some.inj h, sealed_payload_shape hs⟩

end Builder

end SlashCommands
