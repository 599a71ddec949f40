import SlashCommands.Builder
import SlashCommands.Proofs.Checked

/-!
# What an edit does

For each operation on a draft, when it goes through and which draft it leaves. Proofs about drafts
start from these equivalences and open no operation themselves.
-/

namespace SlashCommands

namespace Draft

variable {κ : Type} {d d' : Draft κ}

open Checked

/-! ## Children -/

theorem forbidRootArguments_ok_iff {child : String} :
    d.forbidRootArguments child = .ok () ↔ d.tree.arguments = [] := by
  simp [forbidRootArguments]

theorem addSubgroup_ok_iff {name description : String} :
    d.addSubgroup name description = .ok d' ↔
      Named name ∧ Described description ∧ d.tree.hasChild name = false ∧ d.tree.arguments = []
        ∧ d' = d.addChild (.subgroup (.new name description)) := by
  simp only [addSubgroup, bind_ok_iff, pure_ok_iff, exists_unit_ok_iff, Check.slashName_ok_iff,
    Check.description_ok_iff, Check.notDuplicate_ok_iff, forbidRootArguments_ok_iff,
    eq_comm (a := d')]

theorem ensureSubgroup_ok_iff {group sub : String} :
    d.ensureSubgroup group sub = .ok d' ↔
      (d.tree.subgroup? group).isSome = true ∧ d' = d
        ∨ d.tree.subgroup? group = none ∧ d.tree.subcommand? group = none ∧ Named group
          ∧ d.tree.arguments = [] ∧ d' = d.addChild (.subgroup (.new group placeholder)) := by
  rw [ensureSubgroup]
  rcases hg : d.tree.subgroup? group with _ | g
  · simp [forbidRootArguments_ok_iff, eq_comm (a := d')]
  · simp [eq_comm (a := d')]

theorem insertNested_ok_iff {group : String} {p : Path} {s : Subcommand} :
    d.insertNested group p s = .ok d' ↔
      ∃ e g t, d.ensureSubgroup group s.name = .ok e ∧ e.tree.subgroup? group = some g
        ∧ g.subcommand? s.name = none
        ∧ (e.tree.changeSubgroup? group fun g =>
            some { g with subcommands := g.subcommands ++ [s] }) = some t
        ∧ d' = { e with tree := t } := by
  simp only [insertNested, bind_ok_iff]
  refine exists_congr fun e => ?_
  rcases hg : e.tree.subgroup? group with _ | g
  · simp
  rcases ht : e.tree.changeSubgroup? group fun g =>
      some { g with subcommands := g.subcommands ++ [s] } with _ | t
  · simp
  · simp [eq_comm (a := d')]

theorem insertSubcommand_ok_iff {p : Path} {s : Subcommand} :
    d.insertSubcommand p s = .ok d' ↔ Named s.name ∧
      match p.subgroup with
      | none => d.tree.hasChild s.name = false ∧ d.tree.arguments = []
          ∧ d' = d.addChild (.subcommand s)
      | some group => d.insertNested group p s = .ok d' := by
  rw [insertSubcommand]
  rcases p with ⟨_ | group, sub⟩ <;> simp [forbidRootArguments_ok_iff, eq_comm (a := d')]

theorem addSubcommand_ok_iff {p : Path} {description : String} :
    d.addSubcommand p description = .ok d' ↔
      ∃ name, p.subcommand = some name ∧ Described description
        ∧ d.insertSubcommand p (.new name description) = .ok d' := by
  simp [addSubcommand]

theorem addPlaceholder_ok_iff {p : Path} :
    d.addPlaceholder p = .ok d' ↔
      ∃ name, p.subcommand = some name ∧ d.insertSubcommand p (.new name placeholder) = .ok d' := by
  simp [addPlaceholder]

/-! ## Arguments -/

/-- An argument may follow others if it is optional or the last of them is required. -/
theorem checkFollows_ok_iff {as : List Argument} {a : Argument} :
    checkFollows as a = .ok () ↔
      ∀ last, as.getLast? = some last → a.required = true → last.required = true := by
  rw [checkFollows]
  rcases as.getLast? with _ | last <;> simp

theorem addArgument_ok_iff {p : Path} {a : Argument} :
    d.addArgument p a = .ok d' ↔
      a.check = .ok () ∧ ∃ as t, d.tree.arguments? p = some as ∧ a.name ∉ as.map (·.name)
        ∧ checkFollows as a = .ok () ∧ as.length + 1 ≤ 25
        ∧ d.tree.changeArguments? p (· ++ [a]) = some t ∧ d' = { d with tree := t } := by
  simp only [addArgument, bind_ok_iff, exists_unit_ok_iff]
  refine and_congr_right fun _ => ?_
  rcases d.tree.arguments? p with _ | as
  · simp
  rcases d.tree.changeArguments? p (· ++ [a]) with _ | t
  · simp
  · simp [Check.maxOptions, eq_comm (a := d')]

theorem ensurePath_ok_iff {p : Path} :
    d.ensurePath p = .ok d' ↔
      p.isRoot = true ∧ d.tree.children = [] ∧ d' = d
        ∨ p.isRoot = false ∧ d.tree.contains p = true ∧ d' = d
        ∨ p.isRoot = false ∧ d.tree.contains p = false ∧ d.addPlaceholder p = .ok d' := by
  rw [ensurePath]
  rcases p.isRoot <;> rcases d.tree.contains p <;> simp [eq_comm (a := d')]

theorem declare_ok_iff {declaration : Declaration} :
    d.declare declaration = .ok d' ↔
      declaration.arguments = [] ∧ d.addPlaceholder declaration.path = .ok d'
        ∨ declaration.arguments ≠ [] ∧ ∃ e, d.ensurePath declaration.path = .ok e
          ∧ declaration.arguments.foldlM (fun d a => d.addArgument declaration.path a) e
            = .ok d' := by
  rw [declare]
  rcases declaration.arguments with _ | ⟨a, as⟩
  · simp
  · simp only [List.isEmpty_cons, Bool.false_eq_true, if_false, bind_ok_iff, reduceCtorEq,
      false_and, ne_eq, not_false_eq_true, true_and, false_or]

/-! ## Everything else -/

theorem describe_ok_iff {description : String} :
    d.describe description = .ok d' ↔ Described description ∧ d' = { d with description } := by
  simp [describe, eq_comm (a := d')]

theorem localize_ok_iff {locale description : String} :
    d.localize locale description = .ok d' ↔
      isLocale locale = true ∧ Described description
        ∧ d' = { d with localizations := d.localizations.insert locale description } := by
  simp [localize, eq_comm (a := d')]

theorem allowChannel_ok_iff {channel : String} :
    d.allowChannel channel = .ok d' ↔
      Text.isBlankText channel = false
        ∧ d' = { d with channels := d.channels.insert (Text.trimmed channel) () } := by
  simp [allowChannel, eq_comm (a := d')]

theorem addGuild_ok_iff {guild : String} :
    d.addGuild guild = .ok d' ↔
      Text.isBlankText guild = false
        ∧ d' = { d with guilds := d.guilds.insert (Text.trimmed guild) () } := by
  simp [addGuild, eq_comm (a := d')]

theorem require_ok_iff {raw : String} :
    d.require raw = .ok d' ↔
      (∃ p, Requirement.parse raw = .ok (.permission p)
        ∧ d' = { d with permissions := d.permissions.insert p () })
      ∨ ∃ reference, Requirement.parse raw = .ok (.role reference)
        ∧ d' = { d with roles := d.roles.insert reference () } := by
  simp only [require, bind_ok_iff]
  constructor
  · rintro ⟨p | reference, hr, h⟩
    · exact .inl ⟨p, hr, (pure_ok_iff.1 h).symm⟩
    · exact .inr ⟨reference, hr, (pure_ok_iff.1 h).symm⟩
  · rintro (⟨p, hr, rfl⟩ | ⟨reference, hr, rfl⟩)
    · exact ⟨_, hr, rfl⟩
    · exact ⟨_, hr, rfl⟩

theorem setCallback_ok_iff {key : String} {callback : κ} :
    d.setCallback key callback = .ok d' ↔
      Text.isBlankText key = false ∧
        (Reference.isDefault key = true ∧ d.callbackFallback = none
          ∧ d' = { d with callbackFallback := some callback }
        ∨ Reference.isDefault key = false
          ∧ d' = { d with callbacks := d.callbacks ++ [(key, callback)] }) := by
  simp only [setCallback, bind_ok_iff, exists_unit_ok_iff, Check.notBlank_ok_iff]
  rcases Reference.isDefault key <;> simp [eq_comm (a := d')]

end Draft

end SlashCommands
