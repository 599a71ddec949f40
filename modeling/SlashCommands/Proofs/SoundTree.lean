import Mathlib.Data.List.Nodup
import SlashCommands.Proofs.Checked
import SlashCommands.Tree

/-!
# Sound trees

What the platform asks of a tree, node by node (`Tree.Sound`). Names are distinct where they stand
side by side, so a look-up by name finds the one node of that name (`Tree.subgroup?_eq_some_iff`,
`Tree.subcommand?_eq_some_iff`), and a change of one node that keeps its name and its own soundness
keeps the tree sound (`Tree.Sound.changeSubgroup`, `Tree.Sound.changeSubcommand`,
`Tree.Sound.changeArguments`).
-/

namespace SlashCommands

/-- An argument that passes every check it is made with. -/
structure Argument.Sound (a : Argument) : Prop where
  named : Named a.name
  described : Described a.description
  translated : Translated a.localizations
  passes : a.check = .ok ()

/-- The arguments of one node. -/
structure SoundArguments (as : List Argument) : Prop where
  each : ∀ a ∈ as, a.Sound
  distinct : (as.map (·.name)).Nodup
  /-- All required arguments stand before all optional ones. -/
  ordered : as.Pairwise fun a b => b.required = true → a.required = true
  few : as.length ≤ 25

/-- A subcommand with sound arguments. -/
structure Subcommand.Sound (s : Subcommand) : Prop where
  named : Named s.name
  described : Described s.description
  translated : Translated s.localizations
  arguments : SoundArguments s.arguments

/-- A subgroup with sound subcommands, no two of one name. -/
structure Subgroup.Sound (g : Subgroup) : Prop where
  named : Named g.name
  described : Described g.description
  translated : Translated g.localizations
  each : ∀ s ∈ g.subcommands, s.Sound
  distinct : (g.subcommands.map (·.name)).Nodup

/-- A sound child, of either kind. -/
def Child.Sound : Child → Prop
  | subcommand s => s.Sound
  | subgroup g => g.Sound

/-- A tree as edits leave it. -/
structure Tree.Sound (t : Tree) : Prop where
  arguments : SoundArguments t.arguments
  each : ∀ c ∈ t.children, c.Sound
  /-- Subgroups and subcommands share one name space. -/
  distinct : (t.children.map Child.name).Nodup
  apart : t.arguments = [] ∨ t.children = []

/-! ## Changing one element of a list -/

theorem changeFirst?_eq_some {α : Type} {test : α → Bool} {change : α → Option α} :
    ∀ {xs ys : List α}, changeFirst? test change xs = some ys →
      ∃ pre x y post, xs = pre ++ x :: post ∧ test x = true ∧ change x = some y
        ∧ ys = pre ++ y :: post
  | [], ys, h => by simp [changeFirst?] at h
  | x :: xs, ys, h => by
    rw [changeFirst?] at h
    split_ifs at h with hx
    · obtain ⟨y, hy, rfl⟩ := Option.map_eq_some_iff.1 h
      exact ⟨[], x, y, xs, rfl, hx, hy, rfl⟩
    · obtain ⟨zs, hzs, rfl⟩ := Option.map_eq_some_iff.1 h
      obtain ⟨pre, x', y, post, rfl, hx', hy, rfl⟩ := changeFirst?_eq_some hzs
      exact ⟨x :: pre, x', y, post, rfl, hx', hy, rfl⟩

/-- What is found first is changed, if it can be. -/
theorem isSome_changeFirst? {α : Type} (test : α → Bool) (change : α → Option α) :
    ∀ xs : List α, (changeFirst? test change xs).isSome = ((xs.find? test).bind change).isSome
  | [] => rfl
  | x :: xs => by
    rw [changeFirst?]
    split_ifs with hx
    · rw [List.find?_cons_of_pos hx, Option.isSome_map, Option.bind_some]
    · rw [List.find?_cons_of_neg hx, Option.isSome_map, isSome_changeFirst? test change xs]

/-- What was changed is found in its place, if it still passes the test. -/
theorem find?_of_changeFirst? {α : Type} {test : α → Bool} {change : α → Option α}
    (hk : ∀ x y, test x = true → change x = some y → test y = true) : ∀ {xs ys : List α},
      changeFirst? test change xs = some ys → ys.find? test = (xs.find? test).bind change
  | [], ys, h => by simp [changeFirst?] at h
  | x :: xs, ys, h => by
    rw [changeFirst?] at h
    split_ifs at h with hx
    · obtain ⟨y, hy, rfl⟩ := Option.map_eq_some_iff.1 h
      rw [List.find?_cons_of_pos hx, List.find?_cons_of_pos (hk x y hx hy), Option.bind_some, hy]
    · obtain ⟨zs, hzs, rfl⟩ := Option.map_eq_some_iff.1 h
      rw [List.find?_cons_of_neg hx, List.find?_cons_of_neg hx, find?_of_changeFirst? hk hzs]

theorem map_replace {α β : Type} (f : α → β) {pre post : List α} {x y : α} (h : f y = f x) :
    (pre ++ y :: post).map f = (pre ++ x :: post).map f := by
  simp [h]

theorem forall_mem_replace {α : Type} {p : α → Prop} {pre post : List α} {x y : α}
    (h : ∀ z ∈ pre ++ x :: post, p z) (hy : p y) : ∀ z ∈ pre ++ y :: post, p z := by
  rw [List.forall_mem_append, List.forall_mem_cons] at h ⊢
  exact ⟨h.1, hy, h.2.2⟩

theorem forall_mem_concat {α : Type} {p : α → Prop} {xs : List α} {y : α} (h : ∀ x ∈ xs, p x)
    (hy : p y) : ∀ x ∈ xs ++ [y], p x :=
  List.forall_mem_append.2 ⟨h, List.forall_mem_singleton.2 hy⟩

theorem nodup_map_concat {α β : Type} {f : α → β} {xs : List α} {y : α}
    (h : (xs.map f).Nodup) (hy : f y ∉ xs.map f) : ((xs ++ [y]).map f).Nodup := by
  rw [List.map_append, List.map_singleton, ← List.concat_eq_append]
  exact h.concat hy

theorem any_beq_eq_false_iff {α β : Type} [BEq β] [LawfulBEq β] {f : α → β} {xs : List α} {b : β} :
    (xs.any fun x => f x == b) = false ↔ b ∉ xs.map f := by
  simp only [List.any_eq_false, beq_iff_eq, List.mem_map, not_exists, not_and]

theorem mem_replaced {α : Type} {pre post : List α} {x : α} : x ∈ pre ++ x :: post :=
  List.mem_append_right _ List.mem_cons_self

/-! ## Looking up by name -/

theorem Path.eq_root {p : Path} (h : p.isRoot = true) : p = .root := by
  rcases p with ⟨_ | _, _ | _⟩ <;> first | rfl | cases h

namespace Subgroup

theorem subcommand?_eq_some_iff {g : Subgroup} (h : (g.subcommands.map (·.name)).Nodup)
    {name : String} {s : Subcommand} :
    g.subcommand? name = some s ↔ s ∈ g.subcommands ∧ s.name = name := by
  constructor
  · intro hs
    exact ⟨List.mem_of_find?_eq_some hs, by simpa using List.find?_some hs⟩
  · rintro ⟨hs, rfl⟩
    obtain ⟨s', hs'⟩ := Option.isSome_iff_exists.1
      (List.find?_isSome (p := fun x => x.name == s.name).2 ⟨s, hs, by simp⟩)
    have hn : s'.name = s.name := by simpa using List.find?_some hs'
    rw [← List.inj_on_of_nodup_map h (List.mem_of_find?_eq_some hs') hs hn]
    rw [hn]
    exact hs'

/-- A subcommand in the place of one of the same name. -/
theorem Sound.replace {g : Subgroup} (h : g.Sound) {pre post : List Subcommand}
    {s s' : Subcommand} (hg : g.subcommands = pre ++ s :: post) (hs : s'.Sound)
    (hn : s'.name = s.name) : ({ g with subcommands := pre ++ s' :: post } : Subgroup).Sound where
  named := h.named
  described := h.described
  translated := h.translated
  each := forall_mem_replace (hg ▸ h.each) hs
  distinct := by
    change ((pre ++ s' :: post).map Subcommand.name).Nodup
    rw [map_replace Subcommand.name hn, ← hg]
    exact h.distinct

/-- A subcommand of a new name. -/
theorem Sound.append {g : Subgroup} (h : g.Sound) {s : Subcommand} (hs : s.Sound)
    (hn : g.subcommand? s.name = none) :
    ({ g with subcommands := g.subcommands ++ [s] } : Subgroup).Sound where
  named := h.named
  described := h.described
  translated := h.translated
  each := forall_mem_concat h.each hs
  distinct := by
    change ((g.subcommands ++ [s]).map Subcommand.name).Nodup
    refine nodup_map_concat h.distinct fun hm => ?_
    obtain ⟨x, hx, he⟩ := List.mem_map.1 hm
    rw [(subcommand?_eq_some_iff h.distinct).2 ⟨hx, he⟩] at hn
    simp at hn

end Subgroup

namespace Tree

variable {t t' : Tree}

theorem findSome?_eq_bind {α β : Type} {find : α → Option β} {test : α → Bool}
    (h : ∀ x, (find x).isSome = test x) : ∀ xs : List α,
      xs.findSome? find = (xs.find? test).bind find
  | [] => rfl
  | x :: xs => by
    rw [List.findSome?_cons]
    rcases hx : find x with _ | b
    · have htest : ¬ test x = true := by rw [← h, hx]; exact Bool.false_ne_true
      rw [List.find?_cons_of_neg htest]
      exact findSome?_eq_bind h xs
    · have htest : test x = true := by rw [← h, hx]; rfl
      rw [List.find?_cons_of_pos htest, Option.bind_some, hx]

theorem subgroup?_eq (t : Tree) (name : String) :
    t.subgroup? name = (t.children.find? (Child.isSubgroup name)).bind Child.subgroup? := by
  rw [subgroup?, findSome?_eq_bind fun c => Option.isSome_filter]
  refine Option.bind_congr fun c hc => ?_
  have hn := List.find?_some hc
  rcases c with s | g
  · rfl
  · exact Option.filter_some_pos hn

theorem subcommand?_eq (t : Tree) (name : String) :
    t.subcommand? name = (t.children.find? (Child.isSubcommand name)).bind Child.subcommand? := by
  rw [subcommand?, findSome?_eq_bind fun c => Option.isSome_filter]
  refine Option.bind_congr fun c hc => ?_
  have hn := List.find?_some hc
  rcases c with s | g
  · exact Option.filter_some_pos hn
  · rfl

theorem subgroup?_eq_some {name : String} {g : Subgroup} (h : t.subgroup? name = some g) :
    .subgroup g ∈ t.children ∧ g.name = name := by
  obtain ⟨c, hc, hg⟩ := List.exists_of_findSome?_eq_some h
  rcases c with s | g'
  · simp [Child.subgroup?] at hg
  · simp only [Child.subgroup?, Option.filter_eq_some_iff, Option.some.injEq, beq_iff_eq] at hg
    exact ⟨hg.1 ▸ hc, hg.2⟩

theorem subcommand?_eq_some {name : String} {s : Subcommand} (h : t.subcommand? name = some s) :
    .subcommand s ∈ t.children ∧ s.name = name := by
  obtain ⟨c, hc, hs⟩ := List.exists_of_findSome?_eq_some h
  rcases c with s' | g
  · simp only [Child.subcommand?, Option.filter_eq_some_iff, Option.some.injEq, beq_iff_eq] at hs
    exact ⟨hs.1 ▸ hc, hs.2⟩
  · simp [Child.subcommand?] at hs

theorem nested?_eq_some {group sub : String} {s : Subcommand} (h : t.nested? group sub = some s) :
    ∃ g, .subgroup g ∈ t.children ∧ g.name = group ∧ s ∈ g.subcommands ∧ s.name = sub := by
  obtain ⟨g, hg, hs⟩ := Option.bind_eq_some_iff.1 h
  obtain ⟨hmem, hn⟩ := subgroup?_eq_some hg
  exact ⟨g, hmem, hn, List.mem_of_find?_eq_some hs, by simpa using List.find?_some hs⟩

theorem subgroup?_eq_some_iff (h : (t.children.map Child.name).Nodup) {name : String}
    {g : Subgroup} : t.subgroup? name = some g ↔ .subgroup g ∈ t.children ∧ g.name = name := by
  refine ⟨subgroup?_eq_some, ?_⟩
  rintro ⟨hg, rfl⟩
  rcases hf : t.subgroup? g.name with _ | g'
  · have := List.findSome?_eq_none_iff.1 hf _ hg
    simp [Child.subgroup?] at this
  · obtain ⟨hg', hn⟩ := subgroup?_eq_some hf
    cases List.inj_on_of_nodup_map h hg' hg hn
    rfl

theorem subcommand?_eq_some_iff (h : (t.children.map Child.name).Nodup) {name : String}
    {s : Subcommand} :
    t.subcommand? name = some s ↔ .subcommand s ∈ t.children ∧ s.name = name := by
  refine ⟨subcommand?_eq_some, ?_⟩
  rintro ⟨hs, rfl⟩
  rcases hf : t.subcommand? s.name with _ | s'
  · have := List.findSome?_eq_none_iff.1 hf _ hs
    simp [Child.subcommand?] at this
  · obtain ⟨hs', hn⟩ := subcommand?_eq_some hf
    cases List.inj_on_of_nodup_map h hs' hs hn
    rfl

/-- A name of a subcommand is no name of a subgroup. -/
theorem subgroup?_eq_none (ht : (t.children.map Child.name).Nodup) {name : String}
    (hs : (t.subcommand? name).isSome = true) : t.subgroup? name = none := by
  obtain ⟨s, hs⟩ := Option.isSome_iff_exists.1 hs
  obtain ⟨hsm, hsn⟩ := subcommand?_eq_some hs
  rcases hg : t.subgroup? name with _ | g
  · rfl
  · obtain ⟨hgm, hgn⟩ := subgroup?_eq_some hg
    cases List.inj_on_of_nodup_map ht hsm hgm (hsn.trans hgn.symm)

theorem hasChild_eq_false_iff {name : String} :
    t.hasChild name = false ↔ name ∉ t.children.map Child.name :=
  any_beq_eq_false_iff

/-- A name that is neither a subgroup's nor a subcommand's is no child's. -/
theorem not_mem_names {name : String} (hg : t.subgroup? name = none)
    (hs : t.subcommand? name = none) : name ∉ t.children.map Child.name := by
  intro h
  obtain ⟨c, hc, rfl⟩ := List.mem_map.1 h
  rcases c with s | g
  · have := List.findSome?_eq_none_iff.1 hs _ hc
    simp [Child.subcommand?, Child.name] at this
  · have := List.findSome?_eq_none_iff.1 hg _ hc
    simp [Child.subgroup?, Child.name] at this

/-! ## Changes of what is found -/

theorem isSome_changeSubgroup? (t : Tree) (name : String) (change : Subgroup → Option Subgroup) :
    (t.changeSubgroup? name change).isSome = ((t.subgroup? name).bind change).isSome := by
  rw [changeSubgroup?, Option.isSome_map, isSome_changeFirst?, subgroup?_eq]
  rcases t.children.find? (Child.isSubgroup name) with _ | _ | g
  · rfl
  · rfl
  · simp [Child.subgroup?]

/-- A subcommand can be changed where it is looked up. -/
theorem isSome_changeSubcommand? {p : Path} (hp : p.isRoot = false)
    (change : Subcommand → Subcommand) :
    (t.changeSubcommand? p change).isSome = (t.arguments? p).isSome := by
  rcases p with ⟨_ | group, _ | sub⟩
  · cases hp
  · simp only [changeSubcommand?, arguments?, Option.isSome_map, isSome_changeFirst?,
      subcommand?_eq]
    cases t.children.find? (Child.isSubcommand sub) <;> simp
  · rfl
  · simp only [changeSubcommand?, arguments?, nested?, isSome_changeSubgroup?, Option.isSome_map]
    cases t.subgroup? group with
    | none => rfl
    | some g =>
      simp only [Option.bind_some, Option.isSome_map, isSome_changeFirst?, Subgroup.subcommand?]
      cases g.subcommands.find? fun s => s.name == sub <;> rfl

/-- The arguments at a path can be changed if there are any. -/
theorem isSome_changeArguments? (t : Tree) (p : Path) (change : List Argument → List Argument) :
    (t.changeArguments? p change).isSome = (t.arguments? p).isSome := by
  rw [changeArguments?]
  split_ifs with hroot
  · rcases p with ⟨_ | _, _ | _⟩ <;> first | rfl | cases hroot
  · exact isSome_changeSubcommand? (by simpa using hroot) _

/-- The changed subgroup is found in the place of the one that was found before. -/
theorem subgroup?_of_changeSubgroup? {name : String} {change : Subgroup → Option Subgroup}
    (hn : ∀ g g', change g = some g' → g'.name = g.name)
    (h : t.changeSubgroup? name change = some t') :
    t'.subgroup? name = (t.subgroup? name).bind change := by
  obtain ⟨cs, hcs, rfl⟩ := Option.map_eq_some_iff.1 h
  rw [subgroup?_eq, subgroup?_eq, find?_of_changeFirst? (fun c c' hc hc' => ?_) hcs]
  · rcases t.children.find? (Child.isSubgroup name) with _ | _ | g
    · rfl
    · rfl
    · cases hg : change g <;> simp [Child.subgroup?, hg]
  · rcases c with s | g
    · cases hc
    · obtain ⟨g', hg', rfl⟩ := Option.map_eq_some_iff.1 hc'
      simpa [Child.isSubgroup, Child.subgroup?, hn g g' hg'] using hc

/-! ## Changes that keep a tree sound -/

theorem changeSubgroup?_eq_some {name : String} {change : Subgroup → Option Subgroup}
    (h : t.changeSubgroup? name change = some t') :
    ∃ pre g g' post, t.children = pre ++ .subgroup g :: post ∧ g.name = name
      ∧ change g = some g' ∧ t' = { t with children := pre ++ .subgroup g' :: post } := by
  obtain ⟨cs, hcs, rfl⟩ := Option.map_eq_some_iff.1 h
  obtain ⟨pre, x, y, post, hx, hn, hy, rfl⟩ := changeFirst?_eq_some hcs
  rcases x with s | g
  · cases hn
  · obtain ⟨g', hg', rfl⟩ := Option.map_eq_some_iff.1 hy
    exact ⟨pre, g, g', post, hx, by simpa [Child.isSubgroup, Child.subgroup?] using hn, hg', rfl⟩

/-- The changed subcommand stands under the command itself or in a subgroup. -/
theorem changeSubcommand?_eq_some {p : Path} {change : Subcommand → Subcommand}
    (h : t.changeSubcommand? p change = some t') :
    (∃ pre s post, p = .ofSubcommand s.name ∧ t.children = pre ++ .subcommand s :: post
        ∧ t' = { t with children := pre ++ .subcommand (change s) :: post })
      ∨ ∃ pre g post before s after, p = .nested g.name s.name
        ∧ t.children = pre ++ .subgroup g :: post ∧ g.subcommands = before ++ s :: after
        ∧ t' = { t with children :=
            pre ++ .subgroup { g with subcommands := before ++ change s :: after } :: post } := by
  rcases p with ⟨group, _ | sub⟩
  · simp [changeSubcommand?] at h
  rcases group with _ | group
  · obtain ⟨cs, hcs, rfl⟩ := Option.map_eq_some_iff.1 h
    obtain ⟨pre, x, y, post, hx, hn, hy, rfl⟩ := changeFirst?_eq_some hcs
    rcases x with s | g
    · obtain rfl : s.name = sub := by simpa [Child.isSubcommand, Child.subcommand?] using hn
      cases hy
      exact .inl ⟨pre, s, post, rfl, hx, rfl⟩
    · cases hn
  · obtain ⟨pre, g, g', post, hg, rfl, hg', rfl⟩ := changeSubgroup?_eq_some h
    obtain ⟨ss, hss, rfl⟩ := Option.map_eq_some_iff.1 hg'
    obtain ⟨before, s, y, after, hs, hn, hy, rfl⟩ := changeFirst?_eq_some hss
    obtain rfl : s.name = sub := by simpa using hn
    cases hy
    exact .inr ⟨pre, g, post, before, s, after, rfl, hg, hs, rfl⟩

namespace Sound

/-- A child in the place of one of the same name. -/
theorem replace (h : t.Sound) {pre post : List Child} {c c' : Child}
    (hc : t.children = pre ++ c :: post) (hs : c'.Sound) (hn : c'.name = c.name) :
    ({ t with children := pre ++ c' :: post } : Tree).Sound where
  arguments := h.arguments
  each := forall_mem_replace (hc ▸ h.each) hs
  distinct := by
    rw [map_replace Child.name hn, ← hc]
    exact h.distinct
  apart := by
    rcases h.apart with ha | ha
    · exact .inl ha
    · rw [hc] at ha
      simp at ha

theorem addChild (h : t.Sound) {c : Child} (hs : c.Sound)
    (hn : c.name ∉ t.children.map Child.name) (ha : t.arguments = []) :
    ({ t with children := t.children ++ [c] } : Tree).Sound where
  arguments := h.arguments
  each := forall_mem_concat h.each hs
  distinct := nodup_map_concat h.distinct hn
  apart := .inl ha

theorem changeSubgroup (h : t.Sound) {name : String} {change : Subgroup → Option Subgroup}
    (hc : t.changeSubgroup? name change = some t')
    (hs : ∀ g g', t.subgroup? name = some g → g.Sound → change g = some g' →
      g'.Sound ∧ g'.name = g.name) : t'.Sound := by
  obtain ⟨pre, g, g', post, hg, hn, hg', rfl⟩ := changeSubgroup?_eq_some hc
  have hm : Child.subgroup g ∈ t.children := hg ▸ mem_replaced
  obtain ⟨h1, h2⟩ := hs g g' ((subgroup?_eq_some_iff h.distinct).2 ⟨hm, hn⟩) (h.each _ hm) hg'
  exact h.replace hg h1 h2

theorem changeSubcommand (h : t.Sound) {p : Path} {change : Subcommand → Subcommand}
    (hc : t.changeSubcommand? p change = some t')
    (hs : ∀ s, t.arguments? p = some s.arguments → s.Sound →
      (change s).Sound ∧ (change s).name = s.name) : t'.Sound := by
  rcases changeSubcommand?_eq_some hc with
    ⟨pre, s, post, rfl, hx, rfl⟩ | ⟨pre, g, post, before, s, after, rfl, hx, hg, rfl⟩
  · have hm : Child.subcommand s ∈ t.children := hx ▸ mem_replaced
    have hf := (subcommand?_eq_some_iff h.distinct).2 ⟨hm, rfl⟩
    obtain ⟨h1, h2⟩ := hs s (by simp [arguments?, Path.ofSubcommand, hf]) (h.each _ hm)
    exact h.replace hx h1 h2
  · have hm : Child.subgroup g ∈ t.children := hx ▸ mem_replaced
    have hgs : g.Sound := h.each _ hm
    have hsm : s ∈ g.subcommands := hg ▸ mem_replaced
    have hf := (subgroup?_eq_some_iff h.distinct).2 ⟨hm, rfl⟩
    have hn := (Subgroup.subcommand?_eq_some_iff hgs.distinct).2 ⟨hsm, rfl⟩
    obtain ⟨h1, h2⟩ := hs s (by simp [arguments?, nested?, Path.nested, hf, hn]) (hgs.each s hsm)
    exact h.replace hx (hgs.replace hg h1 h2) rfl

/-- Arguments may come to the command itself only where it has no children. -/
theorem changeArguments (h : t.Sound) {p : Path} {change : List Argument → List Argument}
    (hc : t.changeArguments? p change = some t')
    (hs : ∀ as, t.arguments? p = some as → SoundArguments as → SoundArguments (change as))
    (hr : p.isRoot = true → t.children = [] ∨ change t.arguments = []) : t'.Sound := by
  rw [changeArguments?] at hc
  split_ifs at hc with hp
  · cases hc
    obtain rfl := Path.eq_root hp
    exact ⟨hs _ rfl h.arguments, h.each, h.distinct, (hr hp).symm⟩
  · refine h.changeSubcommand hc fun s hf hss => ⟨?_, rfl⟩
    exact ⟨hss.named, hss.described, hss.translated, hs _ hf hss.arguments⟩

end Sound

end Tree

end SlashCommands
