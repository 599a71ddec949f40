import SlashCommands.Proofs.PayloadShape

/-!
# Payloads lose nothing

Two commands with the same payload are the same command to the platform and to its members: their
names, descriptions, trees and required permissions are equal (`CommandPayload.compile_injective`).
The kind of an option and its channel types together tell the type of an argument
(`ArgumentType.eq_of_kinds`), the kinds of the options at the top tell arguments from children
(`OptionPayload.ofTree_injective`), and each bit of the permissions one member of their set
(`Permission.testBit_bitfield`). A sealed command has the payload of what its documentation left
(`Builder.sealed_payload_faithful`).
-/

namespace SlashCommands

open Checked

theorem ChannelScope.kinds_injective {s t : ChannelScope} (h : s.kinds = t.kinds) : s = t := by
  cases s <;> cases t <;> first | rfl | cases h

/-- The channel types tell the scope where the kind does not tell the type. -/
theorem ArgumentType.eq_of_kinds {s t : ArgumentType} (hk : s.optionKind = t.optionKind)
    (hc : s.channelKinds = t.channelKinds) : s = t := by
  cases t with
  | channel scope =>
    cases s with
    | channel scope' => exact congrArg channel (ChannelScope.kinds_injective hc)
    | _ => cases hk
  | _ => exact eq_of_optionKind hk rfl

/-! ## Options -/

theorem ChoicePayload.ofChoice_injective : Function.Injective ofChoice :=
  fun _ _ h => congrArg value h

section Marked

variable {α : Type} {mark : α → Bool} {as bs as' bs' : List α}

theorem filter_append_of_marked (ha : ∀ x ∈ as, mark x = true) (hb : ∀ x ∈ bs, mark x = false) :
    (as ++ bs).filter mark = as := by
  have hnil : bs.filter mark = [] := List.filter_eq_nil_iff.2 fun x hx => by simp [hb x hx]
  rw [List.filter_append, List.filter_eq_self.2 ha, hnil, List.append_nil]

/-- Two lists of two parts are equal part by part where a mark tells the parts apart. -/
theorem append_inj_of_marked (h : as ++ bs = as' ++ bs') (ha : ∀ x ∈ as, mark x = true)
    (hb : ∀ x ∈ bs, mark x = false) (ha' : ∀ x ∈ as', mark x = true)
    (hb' : ∀ x ∈ bs', mark x = false) : as = as' ∧ bs = bs' := by
  have has : as = as' := by
    rw [← filter_append_of_marked ha hb, h, filter_append_of_marked ha' hb']
  exact ⟨has, List.append_cancel_left (has ▸ h)⟩

end Marked

namespace OptionPayload

theorem ofArgument_injective : Function.Injective ofArgument := by
  intro a b h
  have htype : a.type = b.type :=
    ArgumentType.eq_of_kinds (congrArg kind h) (congrArg channelTypes h)
  have hchoices : a.choices = b.choices :=
    List.map_injective_iff.2 ChoicePayload.ofChoice_injective (congrArg choices h)
  simp only [ofArgument, OptionPayload.mk.injEq] at h
  obtain ⟨-, hname, hdescription, hlocalizations, hrequired, -, -, -, hmin, hmax, hminLength,
    hmaxLength, hautocomplete⟩ := h
  rcases a
  rcases b
  exact (Argument.mk.injEq ..).mpr ⟨hname, htype, hrequired, hautocomplete, hchoices, hmin, hmax,
    hminLength, hmaxLength, hdescription, hlocalizations⟩

theorem container_inj {kind : OptionKind} {name name' description description' : String}
    {localizations localizations' : Localizations} {options options' : List OptionPayload}
    (h : container kind name description localizations options
      = container kind name' description' localizations' options') :
    name = name' ∧ description = description' ∧ localizations = localizations'
      ∧ options = options' := by
  simp only [container, OptionPayload.mk.injEq] at h
  obtain ⟨-, hname, hdescription, hlocalizations, -, -, hoptions, -⟩ := h
  exact ⟨hname, hdescription, hlocalizations, hoptions⟩

theorem ofSubcommand_injective : Function.Injective ofSubcommand := by
  intro s t h
  obtain ⟨hname, hdescription, hlocalizations, hoptions⟩ := container_inj h
  have harguments := List.map_injective_iff.2 ofArgument_injective hoptions
  rcases s
  rcases t
  exact (Subcommand.mk.injEq ..).mpr ⟨hname, hdescription, hlocalizations, harguments⟩

theorem ofSubgroup_injective : Function.Injective ofSubgroup := by
  intro s t h
  obtain ⟨hname, hdescription, hlocalizations, hoptions⟩ := container_inj h
  have hsubcommands := List.map_injective_iff.2 ofSubcommand_injective hoptions
  rcases s
  rcases t
  exact (Subgroup.mk.injEq ..).mpr ⟨hname, hdescription, hlocalizations, hsubcommands⟩

theorem ofChild_injective : Function.Injective ofChild := by
  rintro (s | g) (s' | g') h
  · exact congrArg Child.subcommand (ofSubcommand_injective h)
  · cases congrArg kind h
  · cases congrArg kind h
  · exact congrArg Child.subgroup (ofSubgroup_injective h)

/-- Arguments and children are told apart by the kinds of their options. -/
theorem ofTree_injective : Function.Injective ofTree := by
  intro s t h
  have hmark : ∀ as : List Argument, ∀ o ∈ as.map ofArgument, decide o.IsArgument = true := by
    intro as o ho
    obtain ⟨a, -, rfl⟩ := List.mem_map.1 ho
    exact decide_eq_true (isArgument_ofArgument a)
  have hnot : ∀ cs : List Child, ∀ o ∈ cs.map ofChild, decide o.IsArgument = false := by
    intro cs o ho
    obtain ⟨c, -, rfl⟩ := List.mem_map.1 ho
    exact decide_eq_false (isContainer_ofChild c).not_isArgument
  obtain ⟨ha, hc⟩ := append_inj_of_marked h (hmark _) (hnot _) (hmark _) (hnot _)
  rcases s
  rcases t
  exact (Tree.mk.injEq ..).mpr ⟨List.map_injective_iff.2 ofArgument_injective ha,
    List.map_injective_iff.2 ofChild_injective hc⟩

end OptionPayload

/-! ## Permissions -/

namespace Permission

/-- The bits that are set are those of the places that the permissions have in their table. -/
theorem testBit_bitfield_iff {permissions : List Permission} {k : Nat} :
    (bitfield permissions).testBit k = true ↔ ∃ p ∈ permissions, p.index.val = k := by
  have hstep : ∀ (bits : Nat) (p : Permission),
      (bits ||| p.bit).testBit k = true ↔ bits.testBit k = true ∨ p.index.val = k := by
    intro bits p
    rw [Nat.testBit_or, Bool.or_eq_true, bit, Nat.pow_eq, Nat.testBit_two_pow, decide_eq_true_eq]
  have h := gathered_foldl_iff (g := fun bits : Nat => bits.testBit k = true) hstep permissions 0
  simpa [bitfield] using h

theorem testBit_bitfield {permissions : List Permission} {p : Permission} :
    (bitfield permissions).testBit p.index = true ↔ p ∈ permissions := by
  rw [testBit_bitfield_iff]
  constructor
  · rintro ⟨q, hq, hplace⟩
    obtain rfl : q = p := congrArg mk (Fin.ext hplace)
    exact hq
  · exact fun hp => ⟨p, hp, rfl⟩

theorem bitfield_injective {s t : SortedSet Permission}
    (h : bitfield s.toList = bitfield t.toList) : s = t :=
  SortedSet.eq_of_mem_iff fun p => by rw [← testBit_bitfield, h, testBit_bitfield]

end Permission

theorem toString_nat_injective : Function.Injective (toString : Nat → String) := by
  intro m n h
  have hdigits : Nat.toDigits 10 m = Nat.toDigits 10 n := by
    simpa [Nat.toString_eq_ofList_toDigits] using congrArg String.toList h
  rw [← Decimal.digitsValue_toDigits m, hdigits, Decimal.digitsValue_toDigits]

namespace CommandPayload

/-- An absent bitfield stands for no permissions, a written one for those whose bits are set. -/
theorem permissions_eq {s t : SortedSet Permission}
    (h : (if s.toList.isEmpty then none else some (toString (Permission.bitfield s.toList)))
      = if t.toList.isEmpty then none else some (toString (Permission.bitfield t.toList))) :
    s = t := by
  refine Permission.bitfield_injective ?_
  split_ifs at h with hs ht ht
  · rw [List.isEmpty_iff.1 hs, List.isEmpty_iff.1 ht]
  · exact toString_nat_injective (Option.some.inj h)

theorem compile_injective {name name' description description' : String}
    {localizations localizations' : Localizations} {t t' : Tree}
    {permissions permissions' : SortedSet Permission}
    (h : compile name description localizations t permissions.toList
      = compile name' description' localizations' t' permissions'.toList) :
    name = name' ∧ description = description' ∧ localizations = localizations' ∧ t = t'
      ∧ permissions = permissions' := by
  simp only [compile, CommandPayload.mk.injEq] at h
  obtain ⟨hname, -, hdescription, hlocalizations, hoptions, hpermissions⟩ := h
  exact ⟨hname, hdescription, hlocalizations, OptionPayload.ofTree_injective hoptions,
    permissions_eq hpermissions⟩

end CommandPayload

/-! ## Sealed commands -/

/-- The parts of two commands that the platform is told of are the same. -/
structure Spec.SameParts {η κ η' κ' : Type} (s : Spec η κ) (s' : Spec η' κ') : Prop where
  name : s.name = s'.name
  description : s.description = s'.description
  localizations : s.localizations = s'.localizations
  tree : s.tree = s'.tree
  permissions : s.permissions = s'.permissions

instance {η κ η' κ' : Type} (s : Spec η κ) (s' : Spec η' κ') : Decidable (s.SameParts s') :=
  decidable_of_iff (s.name = s'.name ∧ s.description = s'.description
      ∧ s.localizations = s'.localizations ∧ s.tree = s'.tree ∧ s.permissions = s'.permissions)
    ⟨fun ⟨hn, hd, hl, ht, hp⟩ => ⟨hn, hd, hl, ht, hp⟩,
      fun ⟨hn, hd, hl, ht, hp⟩ => ⟨hn, hd, hl, ht, hp⟩⟩

/-- The parts of a command are those of a draft, and its payload is compiled from them. -/
structure Spec.CompiledFrom {η κ : Type} (s : Spec η κ) (d : Draft κ) : Prop where
  name : s.name = d.name
  description : s.description = d.description
  localizations : s.localizations = d.localizations
  tree : s.tree = d.tree
  permissions : s.permissions = d.permissions
  payload : s.payload
    = .compile s.name s.description s.localizations s.tree s.permissions.toList

namespace Builder

variable {κ η κ' η' : Type}

theorem compiledFrom_of_finish {b : Builder κ} {terminal : Draft.Terminal η} {s : Spec η κ}
    (h : (b.finish terminal).2 = .ok s) :
    ∃ documented, b.draft.applyDocs = .ok documented ∧ s.CompiledFrom documented := by
  obtain ⟨documented, callbacks, handler, hp, -, rfl⟩ :=
    Draft.finish_ok_iff.1 (finish_ok_iff.1 h).2
  exact ⟨documented, (Draft.prepare_ok_iff.1 hp).1, rfl, rfl, rfl, rfl, rfl, rfl⟩

/-- Whatever was called on their builders, two sealed commands have the same payload only if all
that the platform is told of is the same, down to each argument, and the payload is that of the
command as its documentation left it. -/
theorem sealed_payload_faithful {name description : String} {es : List (Edit κ)}
    {terminal : Draft.Terminal η} {s : Spec η κ}
    (h : (((new name description).edits es).finish terminal).2 = .ok s)
    {name' description' : String} {es' : List (Edit κ')} {terminal' : Draft.Terminal η'}
    {s' : Spec η' κ'}
    (h' : (((new name' description').edits es').finish terminal').2 = .ok s') :
    (∃ documented, ((new name description).edits es).draft.applyDocs = .ok documented
        ∧ s.CompiledFrom documented)
      ∧ (s.payload = s'.payload ↔ s.SameParts s') := by
  obtain ⟨d, hd, hs⟩ := compiledFrom_of_finish h
  obtain ⟨d', -, hs'⟩ := compiledFrom_of_finish h'
  refine ⟨⟨d, hd, hs⟩, ?_⟩
  rw [hs.payload, hs'.payload]
  constructor
  · intro he
    obtain ⟨hname, hdescription, hlocalizations, htree, hpermissions⟩ :=
      CommandPayload.compile_injective he
    exact ⟨hname, hdescription, hlocalizations, htree, hpermissions⟩
  · intro hp
    rw [hp.name, hp.description, hp.localizations, hp.tree, hp.permissions]

/-- A subcommand that is described with its call or in the documentation. -/
def topicEdits (text : String) (documentation : List Doc) : List (Edit Unit) :=
  [.subcommand "topic set" text, .argument "topic set <where: voice channel> [by: user]",
    .require "manage_channels", .require "ADMINISTRATOR", .docs documentation]

def topicSeal (text : String) (documentation : List Doc) : Checked (Spec Unit Unit) :=
  (((new "room" "Rooms").edits (topicEdits text documentation)).finish (.action ())).2

/-- Where the description came from leaves no trace. -/
theorem topicEdits_payload_faithful :
    ∃ s s', topicSeal "Sets the topic" [] = .ok s
      ∧ topicSeal placeholder [("topic set", .plain "Sets the topic")] = .ok s'
      ∧ s.payload = s'.payload := by
  have hsame : ((topicSeal "Sets the topic" []).toOption.bind fun s =>
      (topicSeal placeholder [("topic set", .plain "Sets the topic")]).toOption.map fun s' =>
        decide (s.SameParts s')) = some true := by
    decide +kernel
  rcases h : topicSeal "Sets the topic" [] with fault | s
  · rw [h] at hsame
    cases hsame
  rcases h' : topicSeal placeholder [("topic set", .plain "Sets the topic")] with fault | s'
  · rw [h, h'] at hsame
    cases hsame
  rw [h, h'] at hsame
  exact ⟨s, s', rfl, rfl,
    (sealed_payload_faithful h h').2.2 (of_decide_eq_true (Option.some.inj hsame))⟩

end Builder

end SlashCommands
