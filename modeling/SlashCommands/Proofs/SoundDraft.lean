import SlashCommands.Proofs.BlankText
import SlashCommands.Proofs.Declared
import SlashCommands.Proofs.DraftEdits
import SlashCommands.Proofs.SortedEntries
import SlashCommands.Proofs.SoundTree

/-!
# Sound drafts

Every edit keeps a draft sound (`Edit.apply_sound`), so the draft of a builder without a fault is
sound after any edits (`Builder.edits_sound`). The description of the command is left out: it is
looked at only when the command is sealed.
-/

namespace SlashCommands

open Checked

/-! ## Arguments as they are declared -/

namespace Argument

theorem check_ok_iff {a : Argument} :
    a.check = .ok () ↔ Named a.name ∧ Described a.description
      ∧ (do
        Check.exclusive a.hasChoices a.autocomplete a.name "choices" "autocomplete"
        Check.exclusive a.hasChoices a.hasBounds a.name "choices" "min/max"
        Check.exclusive a.hasChoices a.hasLength a.name "choices" "min_length/max_length"
        if a.hasChoices then a.checkChoices
        a.checkBounds
        a.checkLengths : Checked Unit) = .ok () := by
  rw [check, bind_ok_iff, exists_unit_ok_iff, Check.slashName_ok_iff, bind_ok_iff,
    exists_unit_ok_iff, Check.description_ok_iff]

theorem sound_of_check {a : Argument} (h : a.check = .ok ()) (hu : a.Undocumented) :
    a.Sound where
  named := (check_ok_iff.1 h).1
  described := (check_ok_iff.1 h).2.1
  translated := by
    rw [hu]
    rintro e ⟨⟩
  passes := h

end Argument

theorem SoundArguments.nil : SoundArguments [] :=
  ⟨by simp, by simp, by simp, by simp⟩

/-- It is enough to look at the last argument: if that one is required, all are. -/
theorem SoundArguments.append {as : List Argument} {a : Argument} (h : SoundArguments as)
    (ha : a.Sound) (hn : a.name ∉ as.map (·.name)) (hf : Draft.checkFollows as a = .ok ())
    (hl : as.length + 1 ≤ 25) : SoundArguments (as ++ [a]) where
  each := forall_mem_concat h.each ha
  distinct := nodup_map_concat h.distinct hn
  ordered := by
    refine List.pairwise_append.2 ⟨h.ordered, List.pairwise_singleton _ _, ?_⟩
    intro b hb c hc hr
    obtain rfl := List.mem_singleton.1 hc
    obtain ⟨last, hlast⟩ := Option.isSome_iff_exists.1
      (List.getLast?_isSome.2 (List.ne_nil_of_mem hb))
    have hlr := Draft.checkFollows_ok_iff.1 hf last hlast hr
    obtain ⟨init, rfl⟩ := List.getLast?_eq_some_iff.1 hlast
    rcases List.mem_append.1 hb with hb | hb
    · exact (List.pairwise_append.1 h.ordered).2.2 b hb last List.mem_cons_self hlr
    · exact List.mem_singleton.1 hb ▸ hlr
  few := by simpa using hl

/-- An argument in the place of one of the same name that must be given as well, or as little. -/
theorem SoundArguments.replace {pre post : List Argument} {a a' : Argument}
    (h : SoundArguments (pre ++ a :: post)) (ha : a'.Sound) (hn : a'.name = a.name)
    (hr : a'.required = a.required) : SoundArguments (pre ++ a' :: post) where
  each := forall_mem_replace h.each ha
  distinct := by
    rw [map_replace _ hn]
    exact h.distinct
  ordered := by
    have ho := h.ordered
    rw [← List.pairwise_map (f := Argument.required) (R := fun r s => s = true → r = true)] at ho ⊢
    rwa [map_replace _ hr]
  few := by simpa using h.few

theorem Subcommand.sound_new {name description : String} (hn : Named name)
    (hd : Described description) : (Subcommand.new name description).Sound where
  named := hn
  described := hd
  translated := by rintro e ⟨⟩
  arguments := .nil

theorem Subgroup.sound_new {name description : String} (hn : Named name)
    (hd : Described description) : (Subgroup.new name description).Sound where
  named := hn
  described := hd
  translated := by rintro e ⟨⟩
  each := by rintro s ⟨⟩
  distinct := List.nodup_nil

theorem described_placeholder : Described placeholder := by
  unfold Described
  decide

/-! ## Drafts -/

/-- A reference to a role, a channel or a guild. -/
def Referring (references : SortedSet String) : Prop :=
  ∀ r ∈ references.toList, Text.isBlankText r = false

/-- Everything of a command but its own description. -/
structure Draft.Sound {κ : Type} (d : Draft κ) : Prop where
  named : Named d.name
  translated : Translated d.localizations
  tree : d.tree.Sound
  roles : Referring d.roles
  channels : Referring d.channels
  guilds : Referring d.guilds

theorem Referring.insert {references : SortedSet String} (h : Referring references) {r : String}
    (hr : Text.isBlankText r = false) : Referring (references.insert r ()) := by
  intro x hx
  obtain ⟨e, he, rfl⟩ := List.mem_map.1 hx
  rcases SortedMap.mem_insert he with rfl | he
  · exact hr
  · exact h _ (List.mem_map_of_mem he)

theorem Referring.insert_trimmed {references : SortedSet String} (h : Referring references)
    {r : String} (hr : Text.isBlankText r = false) :
    Referring (references.insert (Text.trimmed r) ()) :=
  h.insert (by rw [Text.isBlankText_trimmed, hr])

theorem Requirement.not_blank_of_parse {raw reference : String}
    (h : Requirement.parse raw = .ok (.role reference)) : Text.isBlankText reference = false := by
  simp only [parse, bind_ok_iff, exists_unit_ok_iff, Check.notBlank_ok_iff] at h
  obtain ⟨hb, h⟩ := h
  split at h
  · simp only [bind_ok_iff, exists_unit_ok_iff, Check.notBlank_ok_iff, pure_ok_iff] at h
    obtain ⟨hr, he⟩ := h
    cases he
    exact hr
  · split at h
    · cases h
    · cases h
      exact hb

namespace Draft

variable {κ : Type} {d d' : Draft κ}

theorem Sound.withTree (h : d.Sound) {t : Tree} (ht : t.Sound) : ({ d with tree := t }).Sound :=
  ⟨h.named, h.translated, ht, h.roles, h.channels, h.guilds⟩

theorem Sound.addChild (h : d.Sound) {c : Child} (hs : c.Sound)
    (hn : c.name ∉ d.tree.children.map Child.name) (ha : d.tree.arguments = []) :
    (d.addChild c).Sound :=
  h.withTree (h.tree.addChild hs hn ha)

theorem Sound.addSubgroup (h : d.Sound) {name description : String}
    (hd : d.addSubgroup name description = .ok d') : d'.Sound := by
  obtain ⟨hn, hdesc, hc, ha, rfl⟩ := addSubgroup_ok_iff.1 hd
  exact h.addChild (c := .subgroup _) (Subgroup.sound_new hn hdesc)
    (Tree.hasChild_eq_false_iff.1 hc) ha

theorem Sound.ensureSubgroup (h : d.Sound) {group sub : String}
    (hd : d.ensureSubgroup group sub = .ok d') : d'.Sound := by
  rcases ensureSubgroup_ok_iff.1 hd with ⟨-, rfl⟩ | ⟨hg, hs, hn, ha, rfl⟩
  · exact h
  · exact h.addChild (c := .subgroup _) (Subgroup.sound_new hn described_placeholder)
      (Tree.not_mem_names hg hs) ha

theorem Sound.insertSubcommand (h : d.Sound) {p : Path} {s : Subcommand}
    (hs : Named s.name → s.Sound) (hd : d.insertSubcommand p s = .ok d') : d'.Sound := by
  obtain ⟨hn, hd⟩ := insertSubcommand_ok_iff.1 hd
  rcases p with ⟨_ | group, sub⟩
  · obtain ⟨hc, ha, rfl⟩ := hd
    exact h.addChild (c := .subcommand s) (hs hn) (Tree.hasChild_eq_false_iff.1 hc) ha
  · obtain ⟨e, g, t, he, hg, hfresh, ht, rfl⟩ := insertNested_ok_iff.1 hd
    have hes := h.ensureSubgroup he
    refine hes.withTree (hes.tree.changeSubgroup ht fun g₁ g₂ hg₁ hgs hg₂ => ?_)
    rw [hg] at hg₁
    cases hg₁
    cases hg₂
    exact ⟨hgs.append (hs hn) hfresh, rfl⟩

theorem Sound.addSubcommand (h : d.Sound) {p : Path} {description : String}
    (hd : d.addSubcommand p description = .ok d') : d'.Sound := by
  obtain ⟨name, -, hdesc, hd⟩ := addSubcommand_ok_iff.1 hd
  exact h.insertSubcommand (fun hn => Subcommand.sound_new hn hdesc) hd

theorem Sound.addPlaceholder (h : d.Sound) {p : Path} (hd : d.addPlaceholder p = .ok d') :
    d'.Sound := by
  obtain ⟨name, -, hd⟩ := addPlaceholder_ok_iff.1 hd
  exact h.insertSubcommand (fun hn => Subcommand.sound_new hn described_placeholder) hd

theorem children_of_changeArguments {t t' : Tree} {p : Path}
    {change : List Argument → List Argument} (hp : p.isRoot = true)
    (h : t.changeArguments? p change = some t') : t'.children = t.children := by
  rw [Tree.changeArguments?, if_pos hp] at h
  cases h
  rfl

/-- A draft that is sound and, where arguments are to come to the command itself, has no children.
-/
def SoundFor (p : Path) (d : Draft κ) : Prop :=
  d.Sound ∧ (p.isRoot = true → d.tree.children = [])

theorem SoundFor.addArgument {p : Path} {a : Argument} (h : d.SoundFor p)
    (hu : a.Undocumented) (hd : d.addArgument p a = .ok d') : d'.SoundFor p := by
  obtain ⟨hc, as, t, has, hn, hf, hlen, ht, rfl⟩ := addArgument_ok_iff.1 hd
  refine ⟨h.1.withTree (h.1.tree.changeArguments ht (fun as' has' hs => ?_)
    fun hp => .inl (h.2 hp)), fun hp => ?_⟩
  · rw [has] at has'
    cases has'
    exact hs.append (Argument.sound_of_check hc hu) hn hf hlen
  · rw [← h.2 hp]
    exact children_of_changeArguments hp ht

theorem Sound.ensurePath (h : d.Sound) {p : Path} (hd : d.ensurePath p = .ok d') :
    d'.SoundFor p := by
  rcases ensurePath_ok_iff.1 hd with ⟨hp, hc, rfl⟩ | ⟨hp, -, rfl⟩ | ⟨hp, -, hd⟩
  · exact ⟨h, fun _ => hc⟩
  · exact ⟨h, fun hr => by simp [hp] at hr⟩
  · exact ⟨h.addPlaceholder hd, fun hr => by simp [hp] at hr⟩

theorem Sound.declare (h : d.Sound) {declaration : Declaration}
    (hu : ∀ a ∈ declaration.arguments, a.Undocumented)
    (hd : d.declare declaration = .ok d') : d'.Sound := by
  rcases declare_ok_iff.1 hd with ⟨-, hd⟩ | ⟨-, e, he, hd⟩
  · exact h.addPlaceholder hd
  · exact (foldlM_keeps (SoundFor declaration.path)
      (fun a ha _ _ hb hc => hb.addArgument (hu a ha) hc) (h.ensurePath he) hd).1

theorem Sound.localize (h : d.Sound) {locale description : String}
    (hd : d.localize locale description = .ok d') : d'.Sound := by
  obtain ⟨hl, hdesc, rfl⟩ := localize_ok_iff.1 hd
  refine { h with translated := fun e he => ?_ }
  rcases SortedMap.mem_insert he with rfl | he
  · exact ⟨hl, hdesc⟩
  · exact h.translated e he

theorem Sound.allowChannel (h : d.Sound) {channel : String}
    (hd : d.allowChannel channel = .ok d') : d'.Sound := by
  obtain ⟨hb, rfl⟩ := allowChannel_ok_iff.1 hd
  exact { h with channels := h.channels.insert_trimmed hb }

theorem Sound.addGuild (h : d.Sound) {guild : String} (hd : d.addGuild guild = .ok d') :
    d'.Sound := by
  obtain ⟨hb, rfl⟩ := addGuild_ok_iff.1 hd
  exact { h with guilds := h.guilds.insert_trimmed hb }

theorem Sound.require (h : d.Sound) {raw : String} (hd : d.require raw = .ok d') :
    d'.Sound := by
  rcases require_ok_iff.1 hd with ⟨p, -, rfl⟩ | ⟨reference, hr, rfl⟩
  · exact { h with }
  · exact { h with roles := h.roles.insert (Requirement.not_blank_of_parse hr) }

theorem Sound.setCallback (h : d.Sound) {key : String} {callback : κ}
    (hd : d.setCallback key callback = .ok d') : d'.Sound := by
  obtain ⟨-, ⟨-, -, rfl⟩ | ⟨-, rfl⟩⟩ := setCallback_ok_iff.1 hd
  · exact { h with }
  · exact { h with }

end Draft

variable {κ : Type}

theorem Edit.apply_sound {d d' : Draft κ} (h : d.Sound) {e : Edit κ} (hd : e.apply d = .ok d') :
    d'.Sound := by
  cases e with
  | description text =>
    obtain ⟨-, rfl⟩ := Draft.describe_ok_iff.1 hd
    exact { h with }
  | localize locale text => exact h.localize hd
  | subgroup name text => exact h.addSubgroup hd
  | subcommand path text =>
    obtain ⟨p, -, hd⟩ := bind_ok_iff.1 hd
    exact h.addSubcommand hd
  | argument text =>
    obtain ⟨declaration, hp, hd⟩ := bind_ok_iff.1 hd
    exact h.declare (Declaration.undocumented_of_parse hp) hd
  | argumentWith options =>
    obtain ⟨⟨p, a⟩, ha, hd⟩ := bind_ok_iff.1 hd
    refine h.declare (fun b hb => ?_) hd
    rw [List.mem_singleton.1 hb]
    exact ArgumentOptions.undocumented_of_toArgument ha
  | require requirement => exact h.require hd
  | channel reference => exact h.allowChannel hd
  | guild reference => exact h.addGuild hd
  | docs entries =>
    cases hd
    exact { h with }
  | docsFile path content =>
    obtain ⟨entries, -, hd⟩ := bind_ok_iff.1 hd
    cases hd
    exact { h with }
  | autocomplete key callback => exact h.setCallback hd

namespace Builder

/-- What is known of a builder: as long as no fault was met, its draft is sound. -/
def Sound (b : Builder κ) : Prop :=
  b.fault = none → b.draft.Sound

theorem new_sound (name description : String) :
    (Builder.new name description : Builder κ).Sound := by
  intro h
  refine ⟨?_, ?_, ⟨.nil, ?_, List.nodup_nil, .inl rfl⟩, ?_, ?_, ?_⟩
  · rw [Builder.new] at h
    split at h
    · rename_i hn
      exact Check.slashName_ok_iff.1 hn
    · cases h
  · rintro e ⟨⟩
  · rintro c ⟨⟩
  all_goals rintro r ⟨⟩

theorem edit_sound {b : Builder κ} (h : b.Sound) (e : Edit κ) : (b.edit e).Sound := by
  rw [edit]
  split
  · exact h
  · rename_i hb
    split
    · rename_i d hd
      exact fun _ => Edit.apply_sound (h hb) hd
    · rintro ⟨⟩

theorem edits_sound {b : Builder κ} (h : b.Sound) :
    ∀ es : List (Edit κ), (b.edits es).Sound
  | [] => h
  | e :: es => edits_sound (edit_sound h e) es

end Builder

end SlashCommands
