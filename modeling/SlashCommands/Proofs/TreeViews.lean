import SlashCommands.Proofs.DeclaredEntities

/-!
# Views of a tree

A tree is gone through node by node, looked up by path, asked whether a path is declared, and
changed at a path. Each of these goes through the children by itself. Where names are told apart
they meet the same nodes: a path has arguments if and only if it is gone through, with the arguments
met there (`Tree.Unambiguous.mem_nodes_iff`), it is declared if and only if it is gone through or
the path of a whole subgroup (`Tree.Unambiguous.contains_iff`), and a change replaces the arguments
of one node and nothing else (`Tree.exists_nodes_of_changeArguments`).

Names are told apart in every draft that a builder holds, also in one that an edit has given up
halfway (`Draft.Held.unambiguous`), so the views agree there (`Draft.Held.views_agree`).
-/

namespace SlashCommands

namespace Tree

variable {t t' : Tree} {p q : Path} {as : List Argument} {change : List Argument → List Argument}

/-! ## Going through the nodes -/

/-- What is met behind the command itself are the subcommands, under their paths. -/
theorem mem_childNodes_iff : (p, as) ∈ t.children.flatMap childNodes ↔
    ∃ s, t.Leads p s ∧ s.arguments = as := by
  rw [List.mem_flatMap]
  constructor
  · rintro ⟨s | g, hc, hm⟩
    · cases List.mem_singleton.1 hm
      exact ⟨s, .direct hc, rfl⟩
    · obtain ⟨s, hs, he⟩ := List.mem_map.1 hm
      cases he
      exact ⟨s, .nested hc hs, rfl⟩
  · rintro ⟨s, hleads, rfl⟩
    cases hleads with
    | direct hs => exact ⟨_, hs, List.mem_singleton_self _⟩
    | nested hg hs => exact ⟨_, hg, List.mem_map_of_mem hs⟩

theorem mem_nodes : (p, as) ∈ t.nodes ↔
    (p = .root ∧ t.arguments = as) ∨ ∃ s, t.Leads p s ∧ s.arguments = as := by
  rw [nodes, List.mem_cons, mem_childNodes_iff, Prod.mk.injEq, eq_comm (a := as)]

theorem mem_tail_nodes_iff : p ∈ t.nodes.tail.map (·.1) ↔ ∃ s, t.Leads p s := by
  rw [nodes, List.tail_cons, List.mem_map]
  constructor
  · rintro ⟨⟨p, as⟩, hm, rfl⟩
    obtain ⟨s, hs, -⟩ := mem_childNodes_iff.1 hm
    exact ⟨s, hs⟩
  · rintro ⟨s, hs⟩
    exact ⟨(p, s.arguments), mem_childNodes_iff.2 ⟨s, hs, rfl⟩, rfl⟩

/-- Arguments that are looked up are those of the command itself or of a subcommand. -/
theorem mem_nodes_of_arguments? (h : t.arguments? p = some as) : (p, as) ∈ t.nodes := by
  rw [mem_nodes]
  rcases p with ⟨_ | group, _ | sub⟩
  · exact .inl ⟨rfl, Option.some.inj h⟩
  · obtain ⟨s, hs, rfl⟩ := Option.map_eq_some_iff.1 h
    obtain ⟨hc, rfl⟩ := subcommand?_eq_some hs
    exact .inr ⟨s, .direct hc, rfl⟩
  · cases h
  · obtain ⟨s, hn, rfl⟩ := Option.map_eq_some_iff.1 h
    obtain ⟨g, hc, rfl, hs, rfl⟩ := nested?_eq_some hn
    exact .inr ⟨s, .nested hc hs, rfl⟩

/-- Going through the nodes meets what is looked up by path. -/
theorem Unambiguous.mem_nodes_iff (ht : t.Unambiguous) :
    (p, as) ∈ t.nodes ↔ t.arguments? p = some as := by
  refine ⟨fun h => ?_, mem_nodes_of_arguments?⟩
  rcases mem_nodes.1 h with ⟨rfl, rfl⟩ | ⟨s, hleads, rfl⟩
  · rfl
  · exact hleads.arguments? ht

theorem Leads.sound {s : Subcommand} (h : t.Leads p s) (ht : t.Sound) : s.Sound := by
  cases h with
  | direct hs => exact ht.each _ hs
  | nested hg hs =>
    have hgroup : Subgroup.Sound _ := ht.each _ hg
    exact hgroup.each s hs

theorem Sound.soundArguments (ht : t.Sound) (h : (p, as) ∈ t.nodes) : SoundArguments as := by
  rcases mem_nodes.1 h with ⟨-, rfl⟩ | ⟨s, hleads, rfl⟩
  · exact ht.arguments
  · exact (hleads.sound ht).arguments

/-- The name that a path begins with. -/
theorem first_of_mem_childNodes {c : Child} {node : Path × List Argument}
    (h : node ∈ childNodes c) : node.1.subgroup.or node.1.subcommand = some c.name := by
  cases c with
  | subcommand s =>
    cases List.mem_singleton.1 h
    rfl
  | subgroup g =>
    obtain ⟨s, -, rfl⟩ := List.mem_map.1 h
    rfl

theorem Unambiguous.nodup_nodes (ht : t.Unambiguous) : (t.nodes.map (·.1)).Nodup := by
  rw [nodes, List.map_cons, List.nodup_cons]
  constructor
  · intro h
    obtain ⟨node, hm, hroot⟩ := List.mem_map.1 h
    obtain ⟨c, -, hc⟩ := List.mem_flatMap.1 hm
    have hfirst := first_of_mem_childNodes hc
    rw [hroot] at hfirst
    cases hfirst
  rw [List.map_flatMap, List.nodup_flatMap]
  refine ⟨fun c hc => ?_, (List.pairwise_map.1 ht.children).imp fun hne p hp hp' => hne ?_⟩
  · cases c with
    | subcommand s => exact List.nodup_singleton _
    | subgroup g =>
      have hmap : (childNodes (.subgroup g)).map (·.1)
          = (g.subcommands.map (·.name)).map (Path.nested g.name) := by
        rw [childNodes, List.map_map, List.map_map]
        rfl
      rw [hmap]
      exact (ht.nested g hc).map fun a b h => by simpa [Path.nested] using h
  · -- Paths into two children begin with two names.
    obtain ⟨node, hm, rfl⟩ := List.mem_map.1 hp
    obtain ⟨node', hm', he⟩ := List.mem_map.1 hp'
    have hfirst := first_of_mem_childNodes hm
    rw [← he, first_of_mem_childNodes hm'] at hfirst
    exact (Option.some.inj hfirst).symm

/-- The addresses of the nodes are the paths that have arguments. -/
theorem Unambiguous.mem_addresses_iff (ht : t.Unambiguous) :
    p ∈ t.nodes.map (·.1) ↔ (t.arguments? p).isSome = true := by
  rw [Option.isSome_iff_exists, List.mem_map]
  constructor
  · rintro ⟨⟨p, as⟩, hm, rfl⟩
    exact ⟨as, ht.mem_nodes_iff.1 hm⟩
  · rintro ⟨as, has⟩
    exact ⟨(p, as), mem_nodes_of_arguments? has, rfl⟩

/-! ## Asking for a path -/

/-- The path of a whole subgroup is the only one that is declared without arguments. -/
theorem contains_eq_isSome_arguments? {sub : String} (hp : p.subcommand = some sub) :
    t.contains p = (t.arguments? p).isSome := by
  rcases p with ⟨_ | group, _⟩ <;> obtain rfl := hp
  · rw [contains, arguments?, Option.isSome_map]
  · rw [contains, arguments?, Option.isSome_map]

theorem contains_ofGroup {group : String} :
    t.contains (.ofGroup group) = true ↔ ∃ g, .subgroup g ∈ t.children ∧ g.name = group := by
  change (t.subgroup? group).isSome = true ↔ _
  constructor
  · intro h
    obtain ⟨g, hg⟩ := Option.isSome_iff_exists.1 h
    exact ⟨g, subgroup?_eq_some hg⟩
  · rintro ⟨g, hg, rfl⟩
    rw [subgroup?, List.findSome?_isSome_iff]
    exact ⟨_, hg, by simp [Child.subgroup?]⟩

theorem Unambiguous.contains_iff (ht : t.Unambiguous) : t.contains p = true ↔
    p ∈ t.nodes.map (·.1) ∨ ∃ g, .subgroup g ∈ t.children ∧ p = .ofGroup g.name := by
  rw [ht.mem_addresses_iff]
  rcases p with ⟨group, _ | sub⟩
  · cases group with
    | none => exact iff_of_true rfl (.inl rfl)
    | some group =>
      refine contains_ofGroup.trans ⟨?_, ?_⟩
      · rintro ⟨g, hg, rfl⟩
        exact .inr ⟨g, hg, rfl⟩
      · rintro (h | ⟨g, hg, he⟩)
        · cases h
        · cases he
          exact ⟨g, hg, rfl⟩
  · -- A path with a subcommand is not the one of a whole subgroup.
    rw [contains_eq_isSome_arguments? rfl, or_iff_left]
    rintro ⟨g, -, he⟩
    cases he

/-! ## Changing the arguments at a path -/

/-- A change replaces the arguments of one node, the one at the path. -/
theorem exists_nodes_of_changeArguments (h : t.changeArguments? p change = some t') :
    ∃ before as after, t.nodes = before ++ (p, as) :: after
      ∧ t'.nodes = before ++ (p, change as) :: after := by
  rw [changeArguments?] at h
  split_ifs at h with hroot
  · cases h
    obtain rfl := Path.eq_root hroot
    exact ⟨[], t.arguments, _, rfl, rfl⟩
  rcases changeSubcommand?_eq_some h with
    ⟨pre, s, post, rfl, hx, rfl⟩ | ⟨pre, g, post, before, s, after, rfl, hx, hg, rfl⟩
  · refine ⟨(.root, t.arguments) :: pre.flatMap childNodes, s.arguments,
      post.flatMap childNodes, ?_, ?_⟩
    · simp [nodes, hx, childNodes]
    · simp [nodes, childNodes]
  · refine ⟨(.root, t.arguments) :: pre.flatMap childNodes
        ++ before.map fun s => (.nested g.name s.name, s.arguments), s.arguments,
      (after.map fun s => (.nested g.name s.name, s.arguments)) ++ post.flatMap childNodes, ?_, ?_⟩
    · simp [nodes, hx, childNodes, hg]
    · simp [nodes, childNodes]

theorem Unambiguous.changeArguments (ht : t.Unambiguous)
    (h : t.changeArguments? p change = some t') : t'.Unambiguous :=
  ht.of_shape (shape_changeArguments h)

/-- What is changed are the arguments that are looked up, in the place where they are met. -/
theorem Unambiguous.changed (ht : t.Unambiguous) (h : t.changeArguments? p change = some t') :
    ∃ before as after, t.arguments? p = some as ∧ t'.arguments? p = some (change as)
      ∧ t.nodes = before ++ (p, as) :: after ∧ t'.nodes = before ++ (p, change as) :: after := by
  obtain ⟨before, as, after, hn, hn'⟩ := exists_nodes_of_changeArguments h
  refine ⟨before, as, after, ht.mem_nodes_iff.1 ?_, (ht.changeArguments h).mem_nodes_iff.1 ?_,
    hn, hn'⟩
  · rw [hn]
    exact mem_replaced
  · rw [hn']
    exact mem_replaced

/-- No other arguments change. -/
theorem Unambiguous.arguments?_apart (ht : t.Unambiguous)
    (h : t.changeArguments? p change = some t') (hq : q ≠ p) :
    t'.arguments? q = t.arguments? q := by
  obtain ⟨before, as, after, hn, hn'⟩ := exists_nodes_of_changeArguments h
  refine Option.ext fun bs => ?_
  rw [← ht.mem_nodes_iff, ← (ht.changeArguments h).mem_nodes_iff, hn, hn']
  simp [hq]

/-- Going through the nodes, looking up, asking and changing meet the same nodes. -/
structure ViewsAgree (t : Tree) : Prop where
  /-- The command itself is met first. -/
  root_first : t.nodes.head? = some (.root, t.arguments)
  /-- Behind it come the addresses of all subcommands, under the command or in a subgroup. -/
  declared : ∀ p, p ∈ t.nodes.tail.map (·.1) ↔ ∃ s, t.Leads p s
  once : (t.nodes.map (·.1)).Nodup
  arguments : ∀ p as, t.arguments? p = some as ↔ (p, as) ∈ t.nodes
  contains : ∀ p, t.contains p = true ↔
    p ∈ t.nodes.map (·.1) ∨ ∃ g, .subgroup g ∈ t.children ∧ p = .ofGroup g.name
  changeable : ∀ p change, (t.changeArguments? p change).isSome = (t.arguments? p).isSome
  /-- What is changed are the arguments that are looked up, in the place where they are met. -/
  changed : ∀ p change t', t.changeArguments? p change = some t' →
    ∃ before as after, t.arguments? p = some as ∧ t'.arguments? p = some (change as)
      ∧ t.nodes = before ++ (p, as) :: after ∧ t'.nodes = before ++ (p, change as) :: after
  apart : ∀ p change t', t.changeArguments? p change = some t' →
    ∀ q, q ≠ p → t'.arguments? q = t.arguments? q

end Tree

/-! ## Drafts that a builder holds -/

namespace Draft

variable {κ : Type}

/-- A draft that a builder holds at some moment: between two calls, while it is sealed, or in the
midst of a call, which may fail there. -/
inductive Held : Draft κ → Prop
  /-- The name may have been refused. -/
  | new (name description : String) : Held (.new name description)
  | reachable {d : Draft κ} (h : d.Reachable) : Held d
  /-- A subgroup is there before the subcommand in it. -/
  | grouping {d d' : Draft κ} (h : d.Reachable) {group sub : String}
    (hd : d.ensureSubgroup group sub = .ok d') : Held d'
  /-- The first arguments of a declaration are there before the others. -/
  | declaring {d e d' : Draft κ} (h : d.Reachable) {p : Path} (he : d.ensurePath p = .ok e)
    {as : List Argument} (hd : as.foldlM (fun d a => d.addArgument p a) e = .ok d') : Held d'

variable {d d' : Draft κ}

theorem unambiguous_addArgument (h : d.tree.Unambiguous) {p : Path} {a : Argument}
    (hd : d.addArgument p a = .ok d') : d'.tree.Unambiguous := by
  obtain ⟨-, as, t, -, -, -, -, ht, rfl⟩ := addArgument_ok_iff.1 hd
  exact h.changeArguments ht

theorem Held.unambiguous (h : d.Held) : d.tree.Unambiguous := by
  cases h with
  | new name description => exact ⟨List.nodup_nil, by rintro g ⟨⟩⟩
  | reachable h => exact h.sound.tree.unambiguous
  | grouping h hd => exact (h.sound.ensureSubgroup hd).tree.unambiguous
  | declaring h he hd =>
    exact Checked.foldlM_keeps (fun d => d.tree.Unambiguous)
      (fun _ _ _ _ hb hc => unambiguous_addArgument hb hc)
      (h.sound.ensurePath he).1.tree.unambiguous hd

end Draft

namespace Builder

variable {κ : Type}

/-- Until a call fails the draft is reachable, and that call leaves it as it was. -/
theorem held_edit {b : Builder κ} (h : b.draft.Held) (hr : b.fault = none → b.draft.Reachable)
    (e : Edit κ) :
    (b.edit e).draft.Held ∧ ((b.edit e).fault = none → (b.edit e).draft.Reachable) := by
  rw [edit]
  split
  · exact ⟨h, hr⟩
  · rename_i hb
    split
    · rename_i d hd
      have hreachable := (hr hb).edit hd
      exact ⟨.reachable hreachable, fun _ => hreachable⟩
    · exact ⟨h, by rintro ⟨⟩⟩

theorem held_edits_of_held : ∀ (es : List (Edit κ)) {b : Builder κ}, b.draft.Held →
    (b.fault = none → b.draft.Reachable) → (b.edits es).draft.Held
  | [], _, h, _ => h
  | e :: es, _, h, hr => held_edits_of_held es (held_edit h hr e).1 (held_edit h hr e).2

/-- Whatever calls are made on a builder, also after one has failed, its draft is a held one. -/
theorem held_edits (name description : String) (es : List (Edit κ)) :
    ((new name description).edits es).draft.Held :=
  held_edits_of_held es (.new name description) (@reachable_edits κ name description [])

end Builder

namespace Draft

variable {κ : Type} {d : Draft κ}

/-- Whatever a command has come to, the views of its tree agree. -/
theorem Held.views_agree (h : d.Held) : d.tree.ViewsAgree := by
  have ht := h.unambiguous
  exact
    { root_first := rfl
      declared := fun _ => Tree.mem_tail_nodes_iff
      once := ht.nodup_nodes
      arguments := fun _ _ => ht.mem_nodes_iff.symm
      contains := fun _ => ht.contains_iff
      changeable := d.tree.isSome_changeArguments?
      changed := fun _ _ _ => ht.changed
      apart := fun _ _ _ hc _ hq => ht.arguments?_apart hc hq }

/-- Entries that are added, and listed page by page. -/
def entryEdits : List (Edit Unit) :=
  [.subgroup "entry" "Entries", .argument "entry add <text> [tag]", .argument "list [page]"]

/-- A required argument may not follow an optional one, so the last call fails. -/
def refusedEntry : Builder Unit :=
  (Builder.new "diary" "Diaries").edits
    (entryEdits ++ [.argument "entry edit <id: integer> [text] <why>"])

/-- The draft in which that call fails. -/
def halfEntry : Checked (Draft Unit) := do
  let d ← ((Builder.new "diary" "Diaries").edits entryEdits).draft.ensurePath
    (.nested "entry" "edit")
  [.plain "id" .integer true, .plain "text" .string false].foldlM
    (fun d a => d.addArgument (.nested "entry" "edit") a) d

theorem halfEntry_views_agree :
    (refusedEntry.fault.isSome = true ∧ refusedEntry.draft.tree.ViewsAgree)
    ∧ ∃ d, halfEntry = .ok d ∧ d.Held
      ∧ d.tree.nodes.map (fun node => (node.1, node.2.map (·.name)))
        = [(.root, []), (.nested "entry" "add", ["text", "tag"]),
          (.nested "entry" "edit", ["id", "text"]), (.ofSubcommand "list", ["page"])]
      ∧ d.tree.ViewsAgree := by
  refine ⟨⟨by decide +kernel, (Builder.held_edits _ _ _).views_agree⟩, ?_⟩
  have hreachable : ((Builder.new "diary" "Diaries").edits entryEdits).draft.Reachable :=
    Builder.reachable_edits (by decide +kernel)
  have h : (halfEntry.toOption.map fun d =>
        d.tree.nodes.map fun node => (node.1, node.2.map (·.name)))
      = some [(.root, []), (.nested "entry" "add", ["text", "tag"]),
        (.nested "entry" "edit", ["id", "text"]), (.ofSubcommand "list", ["page"])] := by
    decide +kernel
  obtain ⟨d, hsome, hnodes⟩ := Option.map_eq_some_iff.1 h
  have hd := Checked.toOption_eq_some_iff.1 hsome
  obtain ⟨e, he, hadded⟩ := Checked.bind_ok_iff.1 hd
  have hheld : d.Held := .declaring hreachable he hadded
  exact ⟨d, hd, hheld, hnodes, hheld.views_agree⟩

end Draft

end SlashCommands
