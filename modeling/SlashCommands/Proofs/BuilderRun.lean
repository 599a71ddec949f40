import SlashCommands.Proofs.SealedCommand

/-!
# The calls on a builder

A builder that met no fault is its draft, and the calls on it are a checked fold over that draft
(`Builder.outcome_edits`); finishing looks at the outcome alone (`Builder.finish_eq`). A call
changes the content of the command, or one of the things that are collected beside it
(`Edit.apply_cases`). None renames the command, so a command that was sealed has the name it was
begun with (`Builder.name_of_finish`).
-/

namespace SlashCommands

open Checked

namespace Builder

variable {κ η : Type} {b : Builder κ}

/-- The draft of a builder, or the first fault it met. -/
def outcome (b : Builder κ) : Checked (Draft κ) :=
  match b.fault with
  | some fault => .error fault
  | none => .ok b.draft

theorem outcome_eq_ok_iff {d : Draft κ} : b.outcome = .ok d ↔ b.fault = none ∧ b.draft = d := by
  rw [outcome]
  rcases b.fault <;> simp

theorem outcome_eq_error_iff {fault : Fault} : b.outcome = .error fault ↔ b.fault = some fault := by
  rw [outcome]
  rcases b.fault <;> simp

theorem outcome_new (name description : String) :
    (new name description : Builder κ).outcome
      = (Check.slashName name "command").map fun _ => .new name description := by
  simp only [outcome, new]
  rcases Check.slashName name "command" with fault | u <;> rfl

theorem outcome_edit (e : Edit κ) : (b.edit e).outcome = b.outcome >>= fun d => e.apply d := by
  rcases b with ⟨d, _ | fault⟩
  · change _ = e.apply d
    rcases ha : e.apply d with fault | d'
    · simp only [edit, ha, outcome]
    · simp only [edit, ha, outcome]
  · rfl

theorem outcome_edits : ∀ (es : List (Edit κ)) (b : Builder κ),
    (b.edits es).outcome = b.outcome >>= fun d => es.foldlM Edit.apply d
  | [], b => by
    simp only [List.foldlM_nil]
    exact (bind_pure b.outcome).symm
  | e :: es, b => by
    change ((b.edit e).edits es).outcome = _
    rw [outcome_edits es, outcome_edit, bind_assoc]
    rfl

/-- The outcome of a chain: the name is checked, then the calls are made one after the other. -/
theorem outcome_chain (name description : String) (es : List (Edit κ)) :
    ((new name description : Builder κ).edits es).outcome
      = (Check.slashName name "command").bind fun _ =>
        es.foldlM Edit.apply (.new name description) := by
  rw [outcome_edits, outcome_new]
  rcases Check.slashName name "command" <;> rfl

theorem finish_eq (terminal : Draft.Terminal η) :
    b.finish terminal = match b.outcome with
      | .ok d => d.finish terminal
      | .error fault => ([], .error fault) := by
  rw [finish, outcome]
  rcases b.fault <;> rfl

end Builder

/-! ## What is left alone -/

namespace Draft

variable {κ η : Type} {d d' e : Draft κ}

/-- Nothing but the content of the command is changed: its tree, and how it is described. -/
def OnlyContent (d d' : Draft κ) : Prop :=
  d' = { d with
    description := d'.description, localizations := d'.localizations, tree := d'.tree }

theorem OnlyContent.refl (d : Draft κ) : d.OnlyContent d :=
  rfl

theorem OnlyContent.trans (h : d.OnlyContent d') (h' : d'.OnlyContent e) : d.OnlyContent e := by
  rw [h', h]
  rfl

theorem OnlyContent.name (h : d.OnlyContent d') : d'.name = d.name :=
  (congrArg Draft.name h : _)

theorem onlyContent_tree (d : Draft κ) (t : Tree) : d.OnlyContent { d with tree := t } :=
  rfl

theorem onlyContent_ensureSubgroup {group sub : String}
    (h : d.ensureSubgroup group sub = .ok d') : d.OnlyContent d' := by
  rcases ensureSubgroup_ok_iff.1 h with ⟨-, rfl⟩ | ⟨-, -, -, -, rfl⟩
  · exact .refl _
  · exact d.onlyContent_tree _

theorem onlyContent_insertSubcommand {p : Path} {s : Subcommand}
    (h : d.insertSubcommand p s = .ok d') : d.OnlyContent d' := by
  obtain ⟨-, h⟩ := insertSubcommand_ok_iff.1 h
  rcases p with ⟨_ | group, sub⟩
  · obtain ⟨-, -, rfl⟩ := h
    exact d.onlyContent_tree _
  · obtain ⟨e, g, t, he, -, -, -, rfl⟩ := insertNested_ok_iff.1 h
    exact (onlyContent_ensureSubgroup he).trans (e.onlyContent_tree t)

theorem onlyContent_addPlaceholder {p : Path} (h : d.addPlaceholder p = .ok d') :
    d.OnlyContent d' := by
  obtain ⟨name, -, h⟩ := addPlaceholder_ok_iff.1 h
  exact onlyContent_insertSubcommand h

theorem onlyContent_ensurePath {p : Path} (h : d.ensurePath p = .ok d') : d.OnlyContent d' := by
  rcases ensurePath_ok_iff.1 h with ⟨-, -, rfl⟩ | ⟨-, -, rfl⟩ | ⟨-, -, h⟩
  · exact .refl _
  · exact .refl _
  · exact onlyContent_addPlaceholder h

theorem onlyContent_addArgument {p : Path} {a : Argument} (h : d.addArgument p a = .ok d') :
    d.OnlyContent d' := by
  obtain ⟨-, as, t, -, -, -, -, -, rfl⟩ := addArgument_ok_iff.1 h
  exact d.onlyContent_tree t

theorem onlyContent_declare {declaration : Declaration} (h : d.declare declaration = .ok d') :
    d.OnlyContent d' := by
  rcases declare_ok_iff.1 h with ⟨-, h⟩ | ⟨-, e, he, h⟩
  · exact onlyContent_addPlaceholder h
  · exact foldlM_keeps d.OnlyContent (fun _ _ _ _ hb hc => hb.trans (onlyContent_addArgument hc))
      (onlyContent_ensurePath he) h

theorem onlyContent_applyDoc {doc : Doc} (h : d.applyDoc doc = .ok d') : d.OnlyContent d' := by
  simp only [applyDoc, bind_ok_iff] at h
  obtain ⟨target, -, ⟨description, locales⟩, -, h⟩ := h
  split at h
  · cases h
    rfl
  · simp only [bind_ok_iff, pure_ok_iff] at h
    obtain ⟨t, -, rfl⟩ := h
    exact d.onlyContent_tree t

/-- Sealing takes the documentation out of the draft before it applies it. -/
theorem onlyContent_applyDocs (h : d.applyDocs = .ok d') :
    ({ d with docs := [] } : Draft κ).OnlyContent d' :=
  foldlM_keeps (OnlyContent _) (fun _ _ _ _ hb hc => hb.trans (onlyContent_applyDoc hc))
    (.refl _) h

theorem name_of_finish {terminal : Terminal η} {s : Spec η κ}
    (h : (d.finish terminal).2 = .ok s) : s.name = d.name := by
  obtain ⟨documented, callbacks, handler, hp, hh, rfl⟩ := finish_ok_iff.1 h
  exact (onlyContent_applyDocs (prepare_ok_iff.1 hp).1).name

end Draft

variable {κ η : Type}

/-- What a call changes: the content of the command, or one of the things collected beside it. -/
theorem Edit.apply_cases {d d' : Draft κ} {e : Edit κ} (h : e.apply d = .ok d') :
    d.OnlyContent d'
      ∨ (∃ raw p, e = .require raw ∧ Requirement.parse raw = .ok (.permission p)
        ∧ d' = { d with permissions := d.permissions.insert p () })
      ∨ (∃ raw reference, e = .require raw ∧ Requirement.parse raw = .ok (.role reference)
        ∧ d' = { d with roles := d.roles.insert reference () })
      ∨ ∃ docs callbacks fallback channels guilds, d' = { d with
          docs := docs, callbacks := callbacks, callbackFallback := fallback
          channels := channels, guilds := guilds } := by
  cases e with
  | description text =>
    obtain ⟨-, rfl⟩ := Draft.describe_ok_iff.1 h
    exact .inl rfl
  | localize locale text =>
    obtain ⟨-, -, rfl⟩ := Draft.localize_ok_iff.1 h
    exact .inl rfl
  | subgroup name text =>
    obtain ⟨-, -, -, -, rfl⟩ := Draft.addSubgroup_ok_iff.1 h
    exact .inl (d.onlyContent_tree _)
  | subcommand path text =>
    obtain ⟨path, -, h⟩ := bind_ok_iff.1 h
    obtain ⟨name, -, -, h⟩ := Draft.addSubcommand_ok_iff.1 h
    exact .inl (Draft.onlyContent_insertSubcommand h)
  | argument text =>
    obtain ⟨declaration, -, h⟩ := bind_ok_iff.1 h
    exact .inl (Draft.onlyContent_declare h)
  | argumentWith options =>
    obtain ⟨⟨path, a⟩, -, h⟩ := bind_ok_iff.1 h
    exact .inl (Draft.onlyContent_declare h)
  | require requirement =>
    rcases Draft.require_ok_iff.1 h with ⟨p, hp, rfl⟩ | ⟨reference, hr, rfl⟩
    · exact .inr (.inl ⟨requirement, p, rfl, hp, rfl⟩)
    · exact .inr (.inr (.inl ⟨requirement, reference, rfl, hr, rfl⟩))
  | channel reference =>
    obtain ⟨-, rfl⟩ := Draft.allowChannel_ok_iff.1 h
    exact .inr (.inr (.inr ⟨_, _, _, _, _, rfl⟩))
  | guild reference =>
    obtain ⟨-, rfl⟩ := Draft.addGuild_ok_iff.1 h
    exact .inr (.inr (.inr ⟨_, _, _, _, _, rfl⟩))
  | docs entries =>
    cases h
    exact .inr (.inr (.inr ⟨_, _, _, _, _, rfl⟩))
  | docsFile path content =>
    obtain ⟨entries, -, h⟩ := bind_ok_iff.1 h
    cases h
    exact .inr (.inr (.inr ⟨_, _, _, _, _, rfl⟩))
  | autocomplete key callback =>
    obtain ⟨-, ⟨-, -, rfl⟩ | ⟨-, rfl⟩⟩ := Draft.setCallback_ok_iff.1 h
    · exact .inr (.inr (.inr ⟨_, _, _, _, _, rfl⟩))
    · exact .inr (.inr (.inr ⟨_, _, _, _, _, rfl⟩))

/-- No call renames the command. -/
theorem Edit.name_of_apply {d d' : Draft κ} {e : Edit κ} (h : e.apply d = .ok d') :
    d'.name = d.name := by
  rcases Edit.apply_cases h with h | ⟨_, _, -, -, rfl⟩ | ⟨_, _, -, -, rfl⟩ | ⟨_, _, _, _, _, rfl⟩
  · exact h.name
  · rfl
  · rfl
  · rfl

theorem Builder.name_of_finish {name description : String} {es : List (Edit κ)}
    {terminal : Draft.Terminal η} {s : Spec η κ}
    (h : (((new name description).edits es).finish terminal).2 = .ok s) : s.name = name := by
  obtain ⟨hf, h⟩ := finish_ok_iff.1 h
  have ho := outcome_eq_ok_iff.2 ⟨hf, rfl⟩
  rw [outcome_chain] at ho
  obtain ⟨u, -, hd⟩ := bind_ok_iff.1 ho
  exact (Draft.name_of_finish h).trans (foldlM_keeps (fun d => d.name = name)
    (fun _ _ _ _ hb hc => (Edit.name_of_apply hc).trans hb)
    (show (Draft.new name description : Draft κ).name = name from rfl) hd)

end SlashCommands
