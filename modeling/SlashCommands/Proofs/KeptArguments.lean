import Mathlib.Logic.Relation
import SlashCommands.Proofs.CallbackSlots
import SlashCommands.Proofs.DocumentedCommand

/-!
# Arguments that are kept

An edit adds to the tree and takes nothing away: children, subcommands of a subgroup, arguments
behind those that are there (`Edit.grows_apply`). So the arguments at a path are the first ones
there ever after (`Tree.Grows.within`), and an argument that an edit has added is found again under
its path and its name in the sealed command, with other words at most (`Draft.Reachable.kept`).
-/

namespace SlashCommands

open Checked

/-! ## Growing trees -/

namespace Tree

/-- One thing is added to a tree. -/
inductive Adds : Tree → Tree → Prop
  | child (t : Tree) (c : Child) : Adds t { t with children := t.children ++ [c] }
  | nested {t t' : Tree} {group : String} {s : Subcommand}
    (h : (t.changeSubgroup? group fun g =>
      some { g with subcommands := g.subcommands ++ [s] }) = some t') : Adds t t'
  | argument {t t' : Tree} {p : Path} {a : Argument}
    (h : t.changeArguments? p (· ++ [a]) = some t') : Adds t t'

/-- Things are added to a tree, one after the other. -/
abbrev Grows : Tree → Tree → Prop :=
  Relation.ReflTransGen Adds

/-- The arguments of each node are the first ones of the same node. -/
def NodesWithin (nodes nodes' : List (Path × List Argument)) : Prop :=
  ∀ p as, (p, as) ∈ nodes → ∃ more, (p, as ++ more) ∈ nodes'

variable {t t' : Tree}

theorem NodesWithin.refl (nodes : List (Path × List Argument)) : NodesWithin nodes nodes :=
  fun p as h => ⟨[], by rwa [List.append_nil]⟩

theorem NodesWithin.trans {nodes nodes' nodes'' : List (Path × List Argument)}
    (h : NodesWithin nodes nodes') (h' : NodesWithin nodes' nodes'') :
    NodesWithin nodes nodes'' := by
  intro p as hm
  obtain ⟨more, hm⟩ := h p as hm
  obtain ⟨rest, hm⟩ := h' p _ hm
  exact ⟨more ++ rest, by rwa [← List.append_assoc]⟩

theorem NodesWithin.of_subset {nodes nodes' : List (Path × List Argument)} (h : nodes ⊆ nodes') :
    NodesWithin nodes nodes' :=
  fun p as hm => ⟨[], by simpa using h hm⟩

theorem nodesWithin_replace {pre post : List Child} {c c' : Child}
    (ht : t.children = pre ++ c :: post) (hc : NodesWithin (childNodes c) (childNodes c')) :
    NodesWithin t.nodes ({ t with children := pre ++ c' :: post } : Tree).nodes := by
  intro p as hm
  simp only [nodes, ht, List.flatMap_append, List.flatMap_cons, List.mem_cons,
    List.mem_append] at hm ⊢
  rcases hm with hm | hm | hm | hm
  · exact ⟨[], by simp [hm]⟩
  · exact ⟨[], by simp [hm]⟩
  · obtain ⟨more, hm⟩ := hc p as hm
    exact ⟨more, .inr (.inr (.inl hm))⟩
  · exact ⟨[], by simp [hm]⟩

theorem Adds.within (h : t.Adds t') : NodesWithin t.nodes t'.nodes := by
  cases h with
  | child c =>
    refine .of_subset fun node hn => ?_
    rw [nodes, List.flatMap_append]
    exact List.mem_append_left _ hn
  | nested h =>
    obtain ⟨pre, g, g', post, hg, -, hg', rfl⟩ := changeSubgroup?_eq_some h
    obtain rfl := Option.some.inj hg'
    refine nodesWithin_replace hg (.of_subset fun node hn => ?_)
    rw [childNodes, List.map_append]
    exact List.mem_append_left _ hn
  | @argument _ p a h =>
    obtain ⟨before, bs, after, hn, hn'⟩ := exists_nodes_of_changeArguments h
    intro q as hm
    rw [hn, List.mem_append, List.mem_cons] at hm
    simp only [hn', List.mem_append, List.mem_cons]
    rcases hm with hm | he | hm
    · exact ⟨[], by simp [hm]⟩
    · cases he
      exact ⟨[a], .inr (.inl rfl)⟩
    · exact ⟨[], by simp [hm]⟩

theorem Grows.within (h : t.Grows t') : NodesWithin t.nodes t'.nodes := by
  induction h with
  | refl => exact .refl _
  | tail _ hadds ih => exact ih.trans hadds.within

end Tree

/-! ## Edits -/

namespace Draft

variable {κ : Type} {d d' : Draft κ}

theorem grows_ensureSubgroup {group sub : String} (h : d.ensureSubgroup group sub = .ok d') :
    d.tree.Grows d'.tree := by
  rcases ensureSubgroup_ok_iff.1 h with ⟨-, rfl⟩ | ⟨-, -, -, -, rfl⟩
  · exact .refl
  · exact .single (.child _ _)

theorem grows_insertSubcommand {p : Path} {s : Subcommand}
    (h : d.insertSubcommand p s = .ok d') : d.tree.Grows d'.tree := by
  obtain ⟨-, h⟩ := insertSubcommand_ok_iff.1 h
  rcases p with ⟨_ | group, sub⟩
  · obtain ⟨-, -, rfl⟩ := h
    exact .single (.child _ _)
  · obtain ⟨e, g, t, he, -, -, ht, rfl⟩ := insertNested_ok_iff.1 h
    exact (grows_ensureSubgroup he).tail (.nested ht)

theorem grows_addPlaceholder {p : Path} (h : d.addPlaceholder p = .ok d') :
    d.tree.Grows d'.tree := by
  obtain ⟨name, -, h⟩ := addPlaceholder_ok_iff.1 h
  exact grows_insertSubcommand h

theorem grows_ensurePath {p : Path} (h : d.ensurePath p = .ok d') : d.tree.Grows d'.tree := by
  rcases ensurePath_ok_iff.1 h with ⟨-, -, rfl⟩ | ⟨-, -, rfl⟩ | ⟨-, -, h⟩
  · exact .refl
  · exact .refl
  · exact grows_addPlaceholder h

theorem adds_addArgument {p : Path} {a : Argument} (h : d.addArgument p a = .ok d') :
    d.tree.Adds d'.tree := by
  obtain ⟨-, as, t, -, -, -, -, ht, rfl⟩ := addArgument_ok_iff.1 h
  exact .argument ht

theorem grows_declare {declaration : Declaration} (h : d.declare declaration = .ok d') :
    d.tree.Grows d'.tree := by
  rcases declare_ok_iff.1 h with ⟨-, h⟩ | ⟨-, e, he, h⟩
  · exact grows_addPlaceholder h
  · exact foldlM_keeps (fun f => d.tree.Grows f.tree)
      (fun _ _ _ _ hb hc => hb.tail (adds_addArgument hc)) (grows_ensurePath he) h

end Draft

variable {κ η : Type}

theorem Edit.grows_apply {d d' : Draft κ} {e : Edit κ} (h : e.apply d = .ok d') :
    d.tree.Grows d'.tree := by
  cases e with
  | description text =>
    obtain ⟨-, rfl⟩ := Draft.describe_ok_iff.1 h
    exact .refl
  | localize locale text =>
    obtain ⟨-, -, rfl⟩ := Draft.localize_ok_iff.1 h
    exact .refl
  | subgroup name text =>
    obtain ⟨-, -, -, -, rfl⟩ := Draft.addSubgroup_ok_iff.1 h
    exact .single (.child _ _)
  | subcommand path text =>
    obtain ⟨path, -, h⟩ := bind_ok_iff.1 h
    obtain ⟨name, -, -, h⟩ := Draft.addSubcommand_ok_iff.1 h
    exact Draft.grows_insertSubcommand h
  | argument text =>
    obtain ⟨declaration, -, h⟩ := bind_ok_iff.1 h
    exact Draft.grows_declare h
  | argumentWith options =>
    obtain ⟨⟨path, a⟩, -, h⟩ := bind_ok_iff.1 h
    exact Draft.grows_declare h
  | require requirement =>
    rcases Draft.require_ok_iff.1 h with ⟨p, -, rfl⟩ | ⟨reference, -, rfl⟩
    · exact .refl
    · exact .refl
  | channel reference =>
    obtain ⟨-, rfl⟩ := Draft.allowChannel_ok_iff.1 h
    exact .refl
  | guild reference =>
    obtain ⟨-, rfl⟩ := Draft.addGuild_ok_iff.1 h
    exact .refl
  | docs entries =>
    cases h
    exact .refl
  | docsFile path content =>
    obtain ⟨entries, -, h⟩ := bind_ok_iff.1 h
    cases h
    exact .refl
  | autocomplete key callback =>
    obtain ⟨-, ⟨-, -, rfl⟩ | ⟨-, rfl⟩⟩ := Draft.setCallback_ok_iff.1 h
    · exact .refl
    · exact .refl

theorem Edit.grows_foldlM {d d' : Draft κ} {es : List (Edit κ)}
    (h : es.foldlM Edit.apply d = .ok d') : d.tree.Grows d'.tree :=
  foldlM_keeps (fun f => d.tree.Grows f.tree) (fun _ _ _ _ hb hc => hb.trans (grows_apply hc))
    .refl h

/-! ## Sealed commands -/

/-- An argument is found under its name where all names are distinct. -/
theorem find?_name_eq_some {as : List Argument} (h : (as.map (·.name)).Nodup) {a : Argument}
    (ha : a ∈ as) : as.find? (fun b => b.name == a.name) = some a := by
  obtain ⟨b, hb⟩ := Option.isSome_iff_exists.1
    (List.find?_isSome (p := fun b => b.name == a.name).2 ⟨a, ha, by simp⟩)
  have hname : b.name = a.name := by simpa using List.find?_some hb
  rw [hb, List.inj_on_of_nodup_map h (List.mem_of_find?_eq_some hb) ha hname]

theorem Draft.Reachable.edits {d d' : Draft κ} (h : d.Reachable) {es : List (Edit κ)}
    (hes : es.foldlM Edit.apply d = .ok d') : d'.Reachable :=
  foldlM_keeps Draft.Reachable (fun _ _ _ _ hd he => hd.edit he) h hes

/-- An argument of a draft is one of the command that is sealed after further edits, with other
words at most. -/
theorem Draft.Reachable.kept {d d' : Draft κ} (h : d.Reachable) {es : List (Edit κ)}
    (hes : es.foldlM Edit.apply d = .ok d') {terminal : Draft.Terminal η} {s : Spec η κ}
    (hs : (d'.finish terminal).2 = .ok s) {p : Path} {as : List Argument}
    (has : d.tree.arguments? p = some as) {a : Argument} (ha : a ∈ as) :
    ∃ bs w, s.tree.arguments? p = some bs
      ∧ bs.find? (fun b => b.name == a.name) = some (Wording.onArgument w a) := by
  have hsound := (h.edits hes).sound
  obtain ⟨documented, callbacks, handler, hp, -, rfl⟩ := finish_ok_iff.1 hs
  have happly := (prepare_ok_iff.1 hp).1
  have hsealed := (hsound.applyDocs happly).tree
  obtain ⟨-, rfl⟩ := hsound.applyDocs_reworded happly
  -- The path has the argument in the last draft, and the documentation rewords it in its place.
  obtain ⟨more, hm⟩ := (Edit.grows_foldlM hes).within p as (Tree.mem_nodes_of_arguments? has)
  have hmore := Tree.arguments?_reworded (w := Doc.said d'.tree d'.docs) d'.tree p
  rw [hsound.tree.unambiguous.mem_nodes_iff.1 hm] at hmore
  refine ⟨_, Doc.said d'.tree d'.docs (.argument p a.name), hmore, ?_⟩
  exact find?_name_eq_some (hsealed.soundArguments (Tree.mem_nodes_of_arguments? hmore)).distinct
    (List.mem_map_of_mem (List.mem_append_left _ ha))

/-- A call on the builder of a sealed command was made on a draft, and left one that the calls after
it have changed further. -/
theorem Builder.exists_apply_of_finish {name description : String} {es es' : List (Edit κ)}
    {e : Edit κ} {terminal : Draft.Terminal η} {s : Spec η κ}
    (h : (((new name description).edits (es ++ e :: es')).finish terminal).2 = .ok s) :
    ∃ d d' f : Draft κ, d.Reachable ∧ e.apply d = .ok d' ∧ es'.foldlM Edit.apply d' = .ok f
      ∧ (f.finish terminal).2 = .ok s := by
  obtain ⟨hf, hs⟩ := finish_ok_iff.1 h
  have ho := outcome_eq_ok_iff.2 ⟨hf, rfl⟩
  rw [outcome_chain] at ho
  obtain ⟨_, hn, hes⟩ := bind_ok_iff.1 ho
  rw [List.foldlM_append, bind_ok_iff] at hes
  obtain ⟨d, hd, hes⟩ := hes
  rw [List.foldlM_cons, bind_ok_iff] at hes
  obtain ⟨d', he, hes⟩ := hes
  have hnew : (Draft.new name description : Draft κ).Reachable :=
    .new (Check.slashName_ok_iff.1 hn) description
  exact ⟨d, d', _, hnew.edits hd, he, hes, hs⟩

end SlashCommands
