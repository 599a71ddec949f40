import SlashCommands.Proofs.SoundTree

/-!
# The shape of a tree

Which names are declared and where, without anything else that is known of the nodes (`Tree.shape`).
Whether a path is declared depends on the shape only (`Tree.contains_of_shape`), and so does whether
names are told apart (`Tree.Unambiguous.of_shape`). Changing the arguments at a path leaves the
shape as it is (`Tree.shape_changeArguments`).
-/

namespace SlashCommands

/-- The name of a child and, of a subgroup, the names in it. -/
def Child.shape : Child → String × Option (List String)
  | subcommand s => (s.name, none)
  | subgroup g => (g.name, some (g.subcommands.map (·.name)))

namespace Tree

variable {t t' : Tree}

/-- Which names are declared, and where. -/
def shape (t : Tree) : List (String × Option (List String)) :=
  t.children.map Child.shape

theorem isSome_subcommand? (t : Tree) (name : String) :
    (t.subcommand? name).isSome = t.shape.any fun c => c == (name, none) := by
  rw [Bool.eq_iff_iff, subcommand?, List.findSome?_isSome_iff, shape, List.any_map,
    List.any_eq_true]
  refine exists_congr fun c => and_congr_right fun _ => ?_
  rcases c with s | g <;> simp [Child.subcommand?, Child.shape, Option.isSome_filter]

theorem map_subgroup? (t : Tree) (name : String) :
    (t.subgroup? name).map (fun g => g.subcommands.map (·.name))
      = t.shape.findSome? fun c => if c.1 = name then c.2 else none := by
  rw [subgroup?, shape, List.findSome?_map, List.map_findSome?]
  congr 1
  funext c
  rcases c with s | g
  · by_cases hn : s.name = name <;> simp [Child.subgroup?, Child.shape, hn]
  · by_cases hn : g.name = name <;> simp [Child.subgroup?, Child.shape, Option.filter, hn]

theorem isSome_nested? (t : Tree) (group sub : String) : (t.nested? group sub).isSome
    = ((t.subgroup? group).map fun g => g.subcommands.map (·.name)).any (·.contains sub) := by
  rw [nested?]
  rcases t.subgroup? group with _ | g
  · rfl
  · rw [Option.bind_some, Option.map_some, Option.any_some, Bool.eq_iff_iff]
    simp [Subgroup.subcommand?]

/-- Whether a path is declared depends on the names only. -/
theorem contains_of_shape (h : t'.shape = t.shape) (p : Path) : t'.contains p = t.contains p := by
  have hgroup : ∀ name, (t'.subgroup? name).map (fun g => g.subcommands.map (·.name))
      = (t.subgroup? name).map fun g => g.subcommands.map (·.name) := fun name => by
    rw [map_subgroup?, map_subgroup?, h]
  rcases p with ⟨_ | group, _ | sub⟩
  · rfl
  · simp only [contains, isSome_subcommand?, h]
  · have := congrArg Option.isSome (hgroup group)
    rwa [Option.isSome_map, Option.isSome_map] at this
  · simp only [contains, isSome_nested?, hgroup]

/-! ## Names told apart -/

/-- Side by side no two names are the same. -/
structure Unambiguous (t : Tree) : Prop where
  children : (t.children.map Child.name).Nodup
  nested : ∀ g, .subgroup g ∈ t.children → (g.subcommands.map (·.name)).Nodup

theorem Sound.unambiguous (h : t.Sound) : t.Unambiguous where
  children := h.distinct
  nested g hg := by
    have hgroup : g.Sound := h.each _ hg
    exact hgroup.distinct

theorem names_eq (t : Tree) : t.children.map Child.name = t.shape.map Prod.fst := by
  rw [shape, List.map_map]
  refine List.map_congr_left fun c _ => ?_
  cases c <;> rfl

theorem Unambiguous.of_shape (h : t.Unambiguous) (hs : t'.shape = t.shape) : t'.Unambiguous where
  children := by
    rw [names_eq, hs, ← names_eq]
    exact h.children
  nested g hg := by
    have hmem : (Child.subgroup g).shape ∈ t.shape := hs ▸ List.mem_map_of_mem hg
    obtain ⟨c, hc, he⟩ := List.mem_map.1 hmem
    -- Only a subgroup has the shape of one.
    cases c with
    | subcommand s => simp [Child.shape] at he
    | subgroup g₀ =>
      simp only [Child.shape, Prod.mk.injEq, Option.some.injEq] at he
      rw [← he.2]
      exact h.nested g₀ hc

/-! ## Changes that keep the shape -/

theorem shape_replace {pre post : List Child} {c c' : Child} (h : t.children = pre ++ c :: post)
    (hc : c'.shape = c.shape) :
    ({ t with children := pre ++ c' :: post } : Tree).shape = t.shape := by
  rw [shape, shape, h]
  exact map_replace Child.shape hc

theorem shape_changeArguments {p : Path} {change : List Argument → List Argument}
    (h : t.changeArguments? p change = some t') : t'.shape = t.shape := by
  rw [changeArguments?] at h
  split_ifs at h
  · cases h
    rfl
  · rcases changeSubcommand?_eq_some h with
      ⟨pre, s, post, -, hx, rfl⟩ | ⟨pre, g, post, before, s, after, -, hx, hg, rfl⟩
    · exact shape_replace hx rfl
    · refine shape_replace hx ?_
      simp [Child.shape, hg]

end Tree

end SlashCommands
