import SlashCommands.Proofs.DeclarationText
import SlashCommands.Proofs.FailedCheck
import SlashCommands.Proofs.PiecewiseDeclaration
import SlashCommands.Proofs.TreeViews
import SlashCommands.Proofs.WordPlaces

/-!
# What edits look up

Some edits look for a node that they have declared just before, or that an earlier edit has. They
have a fault for the case that it is not there, which never comes up: a subgroup is found once it is
ensured (`Draft.finds_insertNested`), and the arguments at a path are, from when it is opened to the
last argument that is added there (`Draft.finds_declare`). Nor does any reader or check report that
something was not found, so what an edit fails to find is a locale (`Edit.locale_of_notFound`).
-/

namespace SlashCommands

open Checked

/-! ## Reading -/

theorem Declaration.finds_outline (raw : String) : Finds (outline raw) := by
  unfold outline
  dsimp only
  split
  · exact finds_ok _
  · exact finds_error nofun

theorem Declaration.finds_readArgument (raw : String) (b : Bracketed) :
    Finds (readArgument raw b) := by
  intro what reference h
  cases bracketFault_of_readArgument h

theorem Declaration.finds_parse (raw : String) : Finds (parse raw) := by
  refine finds_bind (finds_bind (finds_outline raw) fun parts _ => ?_) fun _ _ => finds_ok _
  exact finds_bind (finds_mapM fun b _ => finds_readArgument raw b) fun _ _ => finds_ok _

theorem Declaration.finds_parseSingle (raw : String) : Finds (parseSingle raw) := by
  refine finds_bind (finds_parse raw) fun d _ => ?_
  split
  · exact finds_ok _
  · exact finds_error nofun

namespace ArgumentOptions

theorem finds_choiceTypeFrom (subject : String) :
    ∀ (cs : List Choice) (current : ArgumentType), Finds (choiceTypeFrom subject current cs)
  | [], _ => finds_ok _
  | c :: cs, current => by
    rw [choiceTypeFrom]
    split
    · exact finds_choiceTypeFrom subject cs _
    · exact finds_error nofun

theorem finds_choiceType (subject : String) (cs : List Choice) :
    Finds (choiceType subject cs) := by
  cases cs with
  | nil => exact finds_ok _
  | cons c cs => exact finds_choiceTypeFrom subject cs c.type

theorem finds_toArgument (o : ArgumentOptions) : Finds o.toArgument := by
  refine finds_bind (Declaration.finds_parseSingle _) fun ⟨path, a⟩ _ =>
    finds_bind ?_ fun b _ => finds_bind ?_ fun c _ => finds_ok _
  · unfold withDescription
    split
    · exact finds_ok _
    · exact finds_bind (Check.finds_description _ _) fun _ _ => finds_ok _
  · unfold withChoices
    split
    · exact finds_ok _
    · refine finds_bind (Check.finds_exclusive _ _ _ _ _) fun _ _ => ?_
      exact finds_ite (finds_bind (finds_choiceType _ _) fun _ _ => finds_ok _)
        (finds_bind (finds_ok _) fun _ _ => finds_ok _)

end ArgumentOptions

theorem Requirement.finds_parse (raw : String) : Finds (parse raw) := by
  refine finds_bind (Check.finds_notBlank _ _) fun _ _ => ?_
  dsimp only
  split
  · exact finds_bind (Check.finds_notBlank _ _) fun _ _ => finds_ok _
  · split
    · exact finds_ok _
    · exact finds_ok _

theorem DocEntry.finds_readLocale (what : String) (entry : String × Document) :
    Finds (readLocale what entry) := by
  unfold readLocale
  split
  · exact finds_ok _
  · exact finds_error nofun

theorem DocEntry.finds_readAll (source : String) (document : Document) :
    Finds (readAll source document) := by
  unfold readAll
  split
  · refine finds_mapM fun entry _ => ?_
    unfold read
    dsimp only
    split
    · exact finds_ok _
    · exact finds_bind (finds_mapM fun e _ => finds_readLocale _ e) fun _ _ => finds_ok _
    · exact finds_error nofun
  · exact finds_error nofun

theorem FileContent.finds_readDocs (content : FileContent) (path : String) :
    Finds (content.readDocs path) := by
  cases content with
  | absent => exact finds_error nofun
  | undecodable => exact finds_error nofun
  | text content =>
    unfold readDocs
    dsimp only
    split
    · exact DocEntry.finds_readAll _ _
    · exact finds_error nofun

/-! ## Checking an argument -/

namespace Argument

variable (a : Argument)

theorem finds_checkChoices : Finds a.checkChoices := by
  refine finds_bind (Check.finds_rule _ _) fun _ _ =>
    finds_bind (Check.finds_choices _ _) fun _ _ => ?_
  split
  · exact finds_error nofun
  · exact finds_ok _

theorem finds_checkBounds : Finds a.checkBounds := by
  refine finds_bind (Check.finds_rule _ _) fun _ _ => ?_
  dsimp only
  split
  · exact finds_bind (Check.finds_range _ _ _ _) fun _ _ => Check.finds_rule _ _
  · exact finds_bind (finds_ok _) fun _ _ => Check.finds_rule _ _

theorem finds_checkLengths : Finds a.checkLengths := by
  have hbound : ∀ label bound, Finds (a.checkLengthBound label bound) := by
    intro label bound
    cases bound
    · exact finds_ok _
    · exact Check.finds_count _ _ _ _
  refine finds_bind (Check.finds_rule _ _) fun _ _ => finds_bind (hbound _ _) fun _ _ =>
    finds_bind (hbound _ _) fun _ _ => ?_
  split
  · exact Check.finds_count _ _ _ _
  · exact finds_ok _

theorem finds_check : Finds a.check := by
  -- Choices are looked at only if there are some; the rest is looked at either way.
  have hlast : Finds (a.checkBounds >>= fun _ => a.checkLengths) :=
    finds_bind a.finds_checkBounds fun _ _ => a.finds_checkLengths
  refine finds_bind (Check.finds_slashName _ _) fun _ _ =>
    finds_bind (Check.finds_description _ _) fun _ _ =>
    finds_bind (Check.finds_exclusive _ _ _ _ _) fun _ _ =>
    finds_bind (Check.finds_exclusive _ _ _ _ _) fun _ _ =>
    finds_bind (Check.finds_exclusive _ _ _ _ _) fun _ _ => ?_
  exact finds_ite (finds_bind a.finds_checkChoices fun _ _ => hlast) hlast

end Argument

/-! ## Finding nodes -/

/-- Arguments can stand at the command itself and at subcommands, but not at a subgroup. -/
def Path.TakesArguments (p : Path) : Prop :=
  p.isRoot = true ∨ ∃ sub, p.subcommand = some sub

theorem Declaration.takesArguments_of_parse {raw : String} {d : Declaration}
    (h : parse raw = .ok d) : d.path.TakesArguments := by
  obtain ⟨words, -, -, -, hp⟩ := parse_ok_iff.1 h
  rw [hp]
  rcases words with _ | ⟨_, _ | ⟨_, _ | _⟩⟩
  · exact .inl rfl
  · exact .inr ⟨_, rfl⟩
  · exact .inr ⟨_, rfl⟩
  · exact .inl rfl

theorem ArgumentOptions.takesArguments_of_toArgument {o : ArgumentOptions} {p : Path}
    {a : Argument} (h : o.toArgument = .ok (p, a)) : p.TakesArguments := by
  simp only [toArgument, bind_ok_iff, pure_ok_iff, Prod.mk.injEq] at h
  obtain ⟨⟨p', b⟩, hb, -, -, -, -, rfl, -⟩ := h
  rw [Declaration.parseSingle, bind_ok_iff] at hb
  obtain ⟨d, hd, hb⟩ := hb
  split at hb
  · cases hb
    exact Declaration.takesArguments_of_parse hd
  · cases hb

theorem Tree.exists_changeSubgroup? {t : Tree} {name : String} {g : Subgroup}
    (h : t.subgroup? name = some g) (change : Subgroup → Subgroup) :
    ∃ t', (t.changeSubgroup? name fun g => some (change g)) = some t' := by
  exact Option.isSome_iff_exists.1 (by simp [isSome_changeSubgroup?, h])

namespace Draft

variable {κ : Type} {d d' : Draft κ} {p : Path}

theorem exists_subgroup?_of_ensureSubgroup {group sub : String}
    (h : d.ensureSubgroup group sub = .ok d') : ∃ g, d'.tree.subgroup? group = some g := by
  rcases ensureSubgroup_ok_iff.1 h with ⟨hg, rfl⟩ | ⟨hg, -, -, -, rfl⟩
  · exact Option.isSome_iff_exists.1 hg
  · refine ⟨.new group placeholder, ?_⟩
    rw [Tree.subgroup?] at hg ⊢
    rw [addChild, List.findSome?_append, hg]
    simp [Child.subgroup?, Subgroup.new]

/-- Where a path is open, the arguments there are found twice: to be checked and to be extended. -/
theorem OpenAt.exists_arguments (h : d.OpenAt p) (hp : p.TakesArguments)
    (change : List Argument → List Argument) : (∃ as, d.tree.arguments? p = some as)
      ∧ ∃ t, d.tree.changeArguments? p change = some t := by
  unfold OpenAt at h
  split_ifs at h with hroot
  · obtain rfl := Path.eq_root hroot
    exact ⟨⟨_, rfl⟩, _, rfl⟩
  · obtain ⟨sub, hsub⟩ := hp.resolve_left hroot
    rw [Tree.contains_eq_isSome_arguments? hsub] at h
    exact ⟨Option.isSome_iff_exists.1 h,
      Option.isSome_iff_exists.1 ((Tree.isSome_changeArguments? _ p change).trans h)⟩

/-! ## Edits -/

theorem finds_forbidRootArguments (d : Draft κ) (child : String) :
    Finds (d.forbidRootArguments child) :=
  Check.finds_rule _ _

theorem finds_addSubgroup (d : Draft κ) (name description : String) :
    Finds (d.addSubgroup name description) :=
  finds_bind (Check.finds_slashName _ _) fun _ _ =>
    finds_bind (Check.finds_description _ _) fun _ _ =>
    finds_bind (Check.finds_notDuplicate _ _ _) fun _ _ =>
    finds_bind (d.finds_forbidRootArguments _) fun _ _ => finds_ok _

theorem finds_ensureSubgroup (d : Draft κ) (group sub : String) :
    Finds (d.ensureSubgroup group sub) :=
  finds_ite (finds_ok _) <|
    finds_bind (Check.finds_rule _ _) fun _ _ =>
    finds_bind (Check.finds_slashName _ _) fun _ _ =>
    finds_bind (d.finds_forbidRootArguments _) fun _ _ => finds_ok _

/-- The subgroup is there by then, so it is found. -/
theorem finds_insertNested (d : Draft κ) (group : String) (p : Path) (s : Subcommand) :
    Finds (d.insertNested group p s) := by
  refine finds_bind (d.finds_ensureSubgroup _ _) fun e he => ?_
  obtain ⟨g, hg⟩ := exists_subgroup?_of_ensureSubgroup he
  obtain ⟨t, ht⟩ := Tree.exists_changeSubgroup? hg fun g =>
    { g with subcommands := g.subcommands ++ [s] }
  simp only [hg, ht]
  exact finds_bind (finds_ok _) fun _ _ =>
    finds_bind (Check.finds_notDuplicate _ _ _) fun _ _ => finds_ok _

theorem finds_insertSubcommand (d : Draft κ) (p : Path) (s : Subcommand) :
    Finds (d.insertSubcommand p s) := by
  refine finds_bind (Check.finds_slashName _ _) fun _ _ => ?_
  split
  · exact finds_bind (Check.finds_notDuplicate _ _ _) fun _ _ =>
      finds_bind (d.finds_forbidRootArguments _) fun _ _ => finds_ok _
  · exact d.finds_insertNested _ _ _

theorem finds_addPlaceholder (d : Draft κ) (p : Path) : Finds (d.addPlaceholder p) :=
  finds_bind (Check.finds_present _ _) fun _ _ => d.finds_insertSubcommand _ _

theorem finds_addSubcommand (d : Draft κ) (p : Path) (description : String) :
    Finds (d.addSubcommand p description) :=
  finds_bind (Check.finds_present _ _) fun _ _ =>
    finds_bind (Check.finds_description _ _) fun _ _ => d.finds_insertSubcommand _ _

theorem finds_checkFollows (as : List Argument) (a : Argument) : Finds (checkFollows as a) := by
  unfold checkFollows
  split
  · exact Check.finds_rule _ _
  · exact finds_ok _

theorem OpenAt.finds_addArgument (h : d.OpenAt p) (hp : p.TakesArguments) (a : Argument) :
    Finds (d.addArgument p a) := by
  obtain ⟨⟨as, has⟩, t, ht⟩ := h.exists_arguments hp (· ++ [a])
  refine finds_bind a.finds_check fun _ _ => ?_
  simp only [has, ht]
  exact finds_bind (finds_ok _) fun _ _ =>
    finds_bind (Check.finds_notDuplicate _ _ _) fun _ _ =>
    finds_bind (finds_checkFollows _ _) fun _ _ =>
    finds_bind (Check.finds_count _ _ _ _) fun _ _ => finds_ok _

theorem finds_ensurePath (d : Draft κ) (p : Path) : Finds (d.ensurePath p) :=
  finds_ite (finds_bind (Check.finds_rule _ _) fun _ _ => finds_ok _)
    (finds_ite (finds_ok _) (d.finds_addPlaceholder p))

/-- The path is opened first, and every argument leaves it open for the next. -/
theorem finds_declare (d : Draft κ) {declaration : Declaration}
    (hp : declaration.path.TakesArguments) : Finds (d.declare declaration) := by
  refine finds_ite (d.finds_addPlaceholder _) (finds_bind (d.finds_ensurePath _) fun e he => ?_)
  exact finds_foldlM (OpenAt declaration.path) (fun a _ _ hb => hb.finds_addArgument hp a)
    (fun _ _ _ _ hb hc => hb.addArgument hc) (openAt_of_ensurePath he)

theorem finds_subcommandPath (raw : String) : Finds (subcommandPath raw) := by
  unfold subcommandPath
  split
  · exact finds_ok _
  · exact finds_ok _
  · exact finds_error nofun

theorem finds_setCallback (d : Draft κ) (key : String) (callback : κ) :
    Finds (d.setCallback key callback) :=
  finds_bind (Check.finds_notBlank _ _) fun _ _ =>
    finds_ite (finds_bind (Check.finds_notDuplicate _ _ _) fun _ _ => finds_ok _) (finds_ok _)

end Draft

variable {κ : Type}

/-- All that an edit ever fails to find is a locale. -/
theorem Edit.locale_of_notFound {d : Draft κ} {e : Edit κ} {what reference : String}
    (h : e.apply d = .error (.notFound what reference)) :
    what = "locale" ∧ isLocale reference = false ∧ ∃ text, e = .localize reference text := by
  have habsurd : ∀ {x : Checked (Draft κ)}, Finds x → x ≠ .error (.notFound what reference) :=
    fun hx => hx what reference
  cases e with
  | description text =>
    exact absurd h <| habsurd <| finds_bind (Check.finds_description _ _) fun _ _ => finds_ok _
  | localize locale text =>
    rcases bind_error_iff.1 h with h | ⟨-, -, h⟩
    · obtain ⟨hlocale, hfault⟩ := Check.known_error_iff.1 h
      cases hfault
      exact ⟨rfl, hlocale, text, rfl⟩
    · exact absurd h <| habsurd <| finds_bind (Check.finds_description _ _) fun _ _ => finds_ok _
  | subgroup name text => exact absurd h <| habsurd <| d.finds_addSubgroup _ _
  | subcommand path text =>
    exact absurd h <| habsurd <| finds_bind (Draft.finds_subcommandPath _) fun _ _ =>
      d.finds_addSubcommand _ _
  | argument text =>
    exact absurd h <| habsurd <| finds_bind (Declaration.finds_parse _) fun _ hparse =>
      d.finds_declare (Declaration.takesArguments_of_parse hparse)
  | argumentWith options =>
    exact absurd h <| habsurd <| finds_bind options.finds_toArgument fun _ ho =>
      d.finds_declare (ArgumentOptions.takesArguments_of_toArgument ho)
  | require requirement =>
    refine absurd h <| habsurd <| finds_bind (Requirement.finds_parse _) fun r _ => ?_
    cases r <;> exact finds_ok _
  | channel reference =>
    exact absurd h <| habsurd <| finds_bind (Check.finds_notBlank _ _) fun _ _ => finds_ok _
  | guild reference =>
    exact absurd h <| habsurd <| finds_bind (Check.finds_notBlank _ _) fun _ _ => finds_ok _
  | docs entries => cases h
  | docsFile path content =>
    exact absurd h <| habsurd <| finds_bind (content.finds_readDocs _) fun _ _ => finds_ok _
  | autocomplete key callback => exact absurd h <| habsurd <| d.finds_setCallback _ _

end SlashCommands
