import SlashCommands.Proofs.ReachableDraft
import SlashCommands.Proofs.ReferenceWords
import SlashCommands.Proofs.TreeShape

/-!
# What references resolve to

Everything that is declared in a tree, each with its names from the top (`Tree.entities`). In a
sound tree no two of them have the same names (`Tree.Sound.nodup_entities`), although one name may
be a subgroup's, a subcommand's or an argument's and two names may be a subcommand's or an
argument's. So the words of a reference lead to the one entity that has them for its names, or to
nothing (`Tree.resolveWords_eq_some_iff`), and what they lead to is found again when it is to be
described or completed (`Draft.Reachable.resolves_exactly`).
-/

namespace SlashCommands

open Checked

/-- What is declared, with its names from the top. -/
abbrev Entry := List String × Target

namespace Argument

/-- An argument with the names that lead to it. -/
def entry (names : List String) (path : Path) (a : Argument) : Entry :=
  (names ++ [a.name], .argument path a.name)

end Argument

/-- A subcommand and its arguments. -/
def Subcommand.entities (names : List String) (path : Path) (s : Subcommand) : List Entry :=
  (names, .subcommand path) :: s.arguments.map (Argument.entry names path)

/-- A child and all that is declared inside it. -/
def Child.entities : Child → List Entry
  | .subcommand s => s.entities [s.name] (.ofSubcommand s.name)
  | .subgroup g => ([g.name], .subgroup g.name) :: g.subcommands.flatMap fun s =>
      s.entities [g.name, s.name] (.nested g.name s.name)

/-- Everything that is declared in a tree. -/
def Tree.entities (t : Tree) : List Entry :=
  t.arguments.map (Argument.entry [] .root) ++ t.children.flatMap Child.entities

/-! ## No names twice -/

section Names

variable {α : Type} {front : List String}

/-- Lists of entries that go on with different names. -/
theorem nodup_flatMap_of_prefix (front : List String) {xs : List α} {name : α → String}
    {f : α → List Entry} (hd : (xs.map name).Nodup)
    (hf : ∀ x ∈ xs, ∀ e ∈ f x, front ++ [name x] <+: e.1)
    (hn : ∀ x ∈ xs, ((f x).map Prod.fst).Nodup) : ((xs.flatMap f).map Prod.fst).Nodup := by
  rw [List.map_flatMap, List.nodup_flatMap]
  refine ⟨hn, (List.pairwise_map.1 hd).imp_of_mem fun {x y} hx hy hne names hnx hny => hne ?_⟩
  obtain ⟨e, he, rfl⟩ := List.mem_map.1 hnx
  obtain ⟨e', he', heq⟩ := List.mem_map.1 hny
  have hy' : front ++ [name y] <+: e.1 := heq ▸ hf y hy e' he'
  have hsame := (List.prefix_of_prefix_length_le (hf x hx e he) hy' (by simp)).eq_of_length
    (by simp)
  simpa using hsame

theorem nodup_map_entry {path : Path} {as : List Argument} (h : (as.map (·.name)).Nodup) :
    ((as.map (Argument.entry front path)).map Prod.fst).Nodup := by
  have hmap : (as.map (Argument.entry front path)).map Prod.fst
      = (as.map (·.name)).map fun n => front ++ [n] := by
    simp [Argument.entry, Function.comp_def]
  rw [hmap]
  exact h.map fun m n heq => by simpa using heq

theorem Subcommand.prefix_of_mem_entities {s : Subcommand} {path : Path} {e : Entry}
    (h : e ∈ s.entities front path) : front <+: e.1 := by
  rcases List.mem_cons.1 h with rfl | h
  · exact List.prefix_rfl
  · obtain ⟨a, -, rfl⟩ := List.mem_map.1 h
    exact List.prefix_append _ _

theorem Subcommand.nodup_entities {s : Subcommand} (h : s.Sound) (path : Path) :
    ((s.entities front path).map Prod.fst).Nodup := by
  refine List.nodup_cons.2 ⟨fun hmem => ?_, nodup_map_entry h.arguments.distinct⟩
  obtain ⟨e, he, hnames⟩ := List.mem_map.1 hmem
  obtain ⟨a, -, rfl⟩ := List.mem_map.1 he
  simp [Argument.entry] at hnames

theorem Child.prefix_of_mem_entities {c : Child} {e : Entry} (h : e ∈ c.entities) :
    [c.name] <+: e.1 := by
  cases c with
  | subcommand s => exact Subcommand.prefix_of_mem_entities h
  | subgroup g =>
    rcases List.mem_cons.1 h with rfl | h
    · exact List.prefix_rfl
    · obtain ⟨s, -, he⟩ := List.mem_flatMap.1 h
      exact (List.prefix_append [g.name] [s.name]).trans (Subcommand.prefix_of_mem_entities he)

theorem Child.nodup_entities {c : Child} (h : c.Sound) : (c.entities.map Prod.fst).Nodup := by
  cases c with
  | subcommand s => exact Subcommand.nodup_entities h _
  | subgroup g =>
    have hg : g.Sound := h
    refine List.nodup_cons.2 ⟨fun hmem => ?_, ?_⟩
    · -- below a subgroup there are two names at least
      obtain ⟨e, he, hnames⟩ := List.mem_map.1 hmem
      obtain ⟨s, -, he⟩ := List.mem_flatMap.1 he
      have hlength := (Subcommand.prefix_of_mem_entities he).length_le
      simp [hnames] at hlength
    · exact nodup_flatMap_of_prefix [g.name] hg.distinct
        (fun s _ e he => Subcommand.prefix_of_mem_entities he)
        fun s hs => Subcommand.nodup_entities (hg.each s hs) _

end Names

namespace Tree

variable {t : Tree} {names : List String} {target : Target}

theorem Sound.nodup_entities (h : t.Sound) : (t.entities.map Prod.fst).Nodup := by
  rw [entities, List.map_append]
  rcases h.apart with ha | hc
  · rw [ha, List.map_nil, List.map_nil, List.nil_append]
    exact nodup_flatMap_of_prefix [] h.distinct
      (fun c _ e he => Child.prefix_of_mem_entities he)
      fun c hc => Child.nodup_entities (h.each c hc)
  · rw [hc, List.flatMap_nil, List.map_nil, List.append_nil]
    exact nodup_map_entry h.arguments.distinct

/-! ## What the words lead to -/

theorem mem_entities_iff : (names, target) ∈ t.entities ↔ t.Entity names target := by
  constructor
  · intro h
    rcases List.mem_append.1 h with h | h
    · obtain ⟨a, ha, he⟩ := List.mem_map.1 h
      cases he
      exact .argument ha
    · obtain ⟨c, hc, h⟩ := List.mem_flatMap.1 h
      rcases c with s | g
      · rcases List.mem_cons.1 h with he | h
        · cases he
          exact .subcommand hc
        · obtain ⟨a, ha, he⟩ := List.mem_map.1 h
          cases he
          exact .argumentOf hc ha
      · rcases List.mem_cons.1 h with he | h
        · cases he
          exact .subgroup hc
        · obtain ⟨s, hs, h⟩ := List.mem_flatMap.1 h
          rcases List.mem_cons.1 h with he | h
          · cases he
            exact .nested hc hs
          · obtain ⟨a, ha, he⟩ := List.mem_map.1 h
            cases he
            exact .argumentOfNested hc hs ha
  · intro h
    cases h with
    | argument ha => exact List.mem_append_left _ (List.mem_map_of_mem ha)
    | subgroup hg => exact List.mem_append_right _ (List.mem_flatMap.2 ⟨_, hg, List.mem_cons_self⟩)
    | subcommand hs =>
      exact List.mem_append_right _ (List.mem_flatMap.2 ⟨_, hs, List.mem_cons_self⟩)
    | argumentOf hs ha =>
      exact List.mem_append_right _ (List.mem_flatMap.2
        ⟨_, hs, List.mem_cons_of_mem _ (List.mem_map_of_mem ha)⟩)
    | nested hg hs =>
      exact List.mem_append_right _ (List.mem_flatMap.2 ⟨_, hg,
        List.mem_cons_of_mem _ (List.mem_flatMap.2 ⟨_, hs, List.mem_cons_self⟩)⟩)
    | argumentOfNested hg hs ha =>
      exact List.mem_append_right _ (List.mem_flatMap.2 ⟨_, hg, List.mem_cons_of_mem _
        (List.mem_flatMap.2 ⟨_, hs, List.mem_cons_of_mem _ (List.mem_map_of_mem ha)⟩)⟩)

theorem exists_of_argument? {s : Subcommand} {name : String} {a : Argument}
    (h : s.argument? name = some a) : ∃ b ∈ s.arguments, b.name = name :=
  ⟨a, List.mem_of_find?_eq_some h, by simpa using List.find?_some h⟩

/-- Words lead to nothing that is not declared under them. -/
theorem entity_of_resolveWords (h : Reference.resolveWords t names = some target) :
    t.Entity names target := by
  unfold Reference.resolveWords at h
  split at h
  · rename_i one
    split_ifs at h with hg hs ha
    · cases h
      obtain ⟨g, hg⟩ := Option.isSome_iff_exists.1 hg
      obtain ⟨hmem, rfl⟩ := subgroup?_eq_some hg
      exact .subgroup hmem
    · cases h
      obtain ⟨s, hs⟩ := Option.isSome_iff_exists.1 hs
      obtain ⟨hmem, rfl⟩ := subcommand?_eq_some hs
      exact .subcommand hmem
    · cases h
      obtain ⟨a, hmem, hn⟩ := List.any_eq_true.1 ha
      obtain rfl : a.name = one := by simpa using hn
      exact .argument hmem
  · rename_i first second
    split at h
    · rename_i g hg
      obtain ⟨s, hs, rfl⟩ := Option.map_eq_some_iff.1 h
      obtain ⟨hmem, rfl⟩ := subgroup?_eq_some hg
      obtain rfl : s.name = second := by simpa using List.find?_some hs
      exact .nested hmem (List.mem_of_find?_eq_some hs)
    · obtain ⟨_, hfound, rfl⟩ := Option.map_eq_some_iff.1 h
      obtain ⟨s, hs, hargument⟩ := Option.bind_eq_some_iff.1 hfound
      obtain ⟨hmem, rfl⟩ := subcommand?_eq_some hs
      obtain ⟨a, ha, rfl⟩ := exists_of_argument? hargument
      exact .argumentOf hmem ha
  · rename_i group sub argument
    obtain ⟨_, hfound, rfl⟩ := Option.map_eq_some_iff.1 h
    obtain ⟨s, hnested, hargument⟩ := Option.bind_eq_some_iff.1 hfound
    obtain ⟨g, hmem, rfl, hs, rfl⟩ := nested?_eq_some hnested
    obtain ⟨a, ha, rfl⟩ := exists_of_argument? hargument
    exact .argumentOfNested hmem hs ha
  · cases h

theorem resolveWords_eq_some_iff (ht : t.Sound) :
    Reference.resolveWords t names = some target ↔ (names, target) ∈ t.entities := by
  rw [mem_entities_iff]
  exact ⟨entity_of_resolveWords, fun h => h.resolveWords ht⟩

/-! ## Finding it again -/

/-- A path to a subcommand of the tree. -/
inductive Leads (t : Tree) : Path → Subcommand → Prop
  | direct {s} (hs : .subcommand s ∈ t.children) : Leads t (.ofSubcommand s.name) s
  | nested {g s} (hg : .subgroup g ∈ t.children) (hs : s ∈ g.subcommands) :
    Leads t (.nested g.name s.name) s

theorem Leads.arguments? {p : Path} {s : Subcommand} (h : t.Leads p s) (ht : t.Unambiguous) :
    t.arguments? p = some s.arguments := by
  cases h with
  | direct hs =>
    simp [Tree.arguments?, Path.ofSubcommand, (subcommand?_eq_some_iff ht.children).2 ⟨hs, rfl⟩]
  | nested hg hs =>
    simp [Tree.arguments?, Path.nested, nested?, (subgroup?_eq_some_iff ht.children).2 ⟨hg, rfl⟩,
      (Subgroup.subcommand?_eq_some_iff (ht.nested _ hg)).2 ⟨hs, rfl⟩]

theorem Leads.isRoot_eq_false {p : Path} {s : Subcommand} (h : t.Leads p s) : p.isRoot = false := by
  cases h <;> rfl

theorem any_name_eq_true {as : List Argument} {a : Argument} (ha : a ∈ as) :
    (as.any fun b => b.name == a.name) = true :=
  List.any_eq_true.2 ⟨a, ha, by simp⟩

/-- An argument that is declared somewhere is among those that are looked up there. -/
theorem Entity.exists_argument {path : Path} {name : String}
    (h : t.Entity names (.argument path name)) (ht : t.Sound) :
    ∃ as, t.arguments? path = some as ∧ ∃ a ∈ as, a.name = name := by
  cases h with
  | argument ha => exact ⟨_, rfl, _, ha, rfl⟩
  | argumentOf hs ha => exact ⟨_, (Leads.direct hs).arguments? ht.unambiguous, _, ha, rfl⟩
  | argumentOfNested hg hs ha =>
    exact ⟨_, (Leads.nested hg hs).arguments? ht.unambiguous, _, ha, rfl⟩

end Tree

theorem Wording.onTree.exists_found {changed : Option Tree} (h : changed.isSome = true)
    (what reference : String) : ∃ t, found changed what reference = .ok t := by
  obtain ⟨t, rfl⟩ := Option.isSome_iff_exists.1 h
  exact ⟨t, rfl⟩

/-- What is declared can be described. -/
theorem Tree.Entity.exists_onTree {t : Tree} {names : List String} {target : Target}
    (h : t.Entity names target) (ht : t.Sound) (w : Wording) (key : String) :
    ∃ t', w.onTree t key target = .ok t' := by
  rcases target with _ | name | path | ⟨path, name⟩
  · cases h
  · refine Wording.onTree.exists_found ?_ _ _
    cases h with
    | subgroup hg =>
      simp [isSome_changeSubgroup?, (subgroup?_eq_some_iff ht.distinct).2 ⟨hg, rfl⟩]
  · have hleads : ∀ {p s}, t.Leads p s → (t.changeSubcommand? p w.onSubcommand).isSome = true :=
      fun hp => by
        rw [isSome_changeSubcommand? hp.isRoot_eq_false, hp.arguments? ht.unambiguous,
          Option.isSome_some]
    refine Wording.onTree.exists_found ?_ _ _
    cases h with
    | subcommand hs => exact hleads (.direct hs)
    | nested hg hs => exact hleads (.nested hg hs)
  · obtain ⟨as, has, a, ha, rfl⟩ := h.exists_argument ht
    rw [Wording.onTree, has, Option.getD_some, if_pos (any_name_eq_true ha)]
    refine Wording.onTree.exists_found ?_ _ _
    rw [isSome_changeArguments?, has, Option.isSome_some]

namespace Reference

variable {t : Tree} {raw : String} {target : Target}

theorem resolve_of_isDefault (h : isDefault raw = true) (t : Tree) :
    resolve t raw = .ok .command := by
  rw [resolve, if_pos h]

theorem resolve_ok_iff (ht : t.Sound) (h : isDefault raw = false) :
    resolve t raw = .ok target ↔ (words raw, target) ∈ t.entities := by
  rw [← Tree.resolveWords_eq_some_iff ht, resolve, h]
  rcases resolveWords t (words raw) with _ | found <;> simp

theorem resolve_eq_notFound (ht : t.Sound) (h : isDefault raw = false)
    (hn : ∀ target, (words raw, target) ∉ t.entities) :
    resolve t raw = .error (.notFound "documentation reference" raw) := by
  rw [resolve, h]
  rcases hw : resolveWords t (words raw) with _ | found
  · rfl
  · exact absurd ((Tree.resolveWords_eq_some_iff ht).1 hw) (hn found)

theorem entity_of_resolve (ht : t.Sound) (h : resolve t raw = .ok target)
    (hne : target ≠ .command) : t.Entity (words raw) target := by
  have hdefault : isDefault raw = false := by
    by_contra hd
    rw [resolve_of_isDefault (by simpa using hd)] at h
    cases h
    exact hne rfl
  exact Tree.mem_entities_iff.1 ((resolve_ok_iff ht hdefault).1 h)

end Reference

namespace Draft

variable {κ : Type} {d : Draft κ}

/-- An entry is applied as soon as it points at something and its texts are in order. -/
theorem Sound.exists_applyDoc (h : d.Sound) {raw : String} {target : Target}
    (hr : Reference.resolve d.tree raw = .ok target) {entry : DocEntry}
    {parts : Option String × List (String × String)} (hs : entry.split raw = .ok parts) :
    ∃ d', d.applyDoc (raw, entry) = .ok d' := by
  simp only [Draft.applyDoc, hr, hs]
  rcases target with _ | name | path | ⟨path, name⟩
  · exact ⟨_, rfl⟩
  all_goals
    have hentity := Reference.entity_of_resolve h.tree hr (by simp)
    obtain ⟨t, ht⟩ := hentity.exists_onTree h.tree ⟨parts.1, parts.2⟩ raw
    exact ⟨{ d with tree := t }, by simp [ht]⟩

/-- While a command is built and sealed, a reference resolves to the command itself, to the one
entity that has its words for names, or to nothing. What it resolves to is found again, whether it
is to be described or to be completed. -/
theorem Reachable.resolves_exactly (h : d.Reachable) (raw : String) :
    (d.tree.entities.map Prod.fst).Nodup
      ∧ (Reference.isDefault raw = true → Reference.resolve d.tree raw = .ok .command)
      ∧ (Reference.isDefault raw = false →
        (∀ target, Reference.resolve d.tree raw = .ok target ↔
            (Reference.words raw, target) ∈ d.tree.entities)
          ∧ ((∀ target, (Reference.words raw, target) ∉ d.tree.entities) →
            Reference.resolve d.tree raw = .error (.notFound "documentation reference" raw)))
      ∧ ∀ target, Reference.resolve d.tree raw = .ok target →
        (∀ entry parts, DocEntry.split raw entry = .ok parts →
            ∃ d', d.applyDoc (raw, entry) = .ok d')
          ∧ ∀ path name, target = .argument path name → ∃ as a, d.tree.arguments? path = some as
            ∧ as.find? (fun b => b.name == name) = some a
            ∧ isStarred d.tree (path, name) = a.autocomplete := by
  have hsound := h.sound
  refine ⟨hsound.tree.nodup_entities, fun hd => Reference.resolve_of_isDefault hd _, fun hd =>
    ⟨fun target => Reference.resolve_ok_iff hsound.tree hd,
      Reference.resolve_eq_notFound hsound.tree hd⟩, fun target hr =>
    ⟨fun entry parts hs => hsound.exists_applyDoc hr hs, ?_⟩⟩
  rintro path name rfl
  have hentity := Reference.entity_of_resolve hsound.tree hr (by simp)
  obtain ⟨as, has, b, hb, hn⟩ := hentity.exists_argument hsound.tree
  obtain ⟨a, ha⟩ := Option.isSome_iff_exists.1
    (List.find?_isSome (p := fun b => b.name == name).2 ⟨b, hb, by simp [hn]⟩)
  exact ⟨as, a, has, ha, by simp [isStarred, has, ha]⟩

/-- One name three times: a subgroup's, a subcommand's and an argument's. -/
def teamEdits : List (Edit Unit) :=
  [.argument "team team <*team>", .argument "leave <team> [why]", .subgroup "club" "Clubs"]

theorem teamEdits_resolves_exactly :
    ((Builder.new "ping" "Pings").edits teamEdits).draft.Reachable
      ∧ Reference.resolve ((Builder.new "ping" "Pings").edits teamEdits).draft.tree
        "team team <*team>" = .ok (.argument (.nested "team" "team") "team") := by
  have hreachable : ((Builder.new "ping" "Pings").edits teamEdits).draft.Reachable :=
    Builder.reachable_edits (by decide +kernel)
  have hdeclared : (Reference.words "team team <*team>", .argument (.nested "team" "team") "team")
      ∈ ((Builder.new "ping" "Pings").edits teamEdits).draft.tree.entities := by
    decide +kernel
  exact ⟨hreachable, ((hreachable.resolves_exactly _).2.2.1 (by decide +kernel)).1 _ |>.2 hdeclared⟩

end Draft

end SlashCommands
