import SlashCommands.Proofs.RouteSeats

/-!
# The entry that is meant

Of handlers by key, one entry is meant for a path (`Routed`): the one whose key is the path itself,
else the one of its subgroup, else the default one. There is at most one such entry
(`Routed.eq_of_routed`), and its handler is what a table of routes finds
(`RouteTable.resolve_eq_some_iff`).
-/

namespace SlashCommands

variable {η : Type}

/-- The components of a path as words. -/
def Path.words (p : Path) : List String :=
  p.subgroup.toList ++ p.subcommand.toList

/-! ## The entry that is meant -/

/-- The words of the key are those of the path, which is a declared subcommand. -/
structure IsOwnKey (t : Tree) (p : Path) (key : String) : Prop where
  subcommand : p.subcommand.isSome = true
  declared : t.contains p = true
  plain : Reference.isDefault key = false
  words : Reference.words key = p.words

/-- The key is the name of the path's subgroup, which is a declared one. -/
structure IsGroupKey (t : Tree) (p : Path) (key : String) : Prop where
  plain : Reference.isDefault key = false
  group : ∃ g, p.subgroup = some g ∧ (t.subgroup? g).isSome = true ∧ Reference.words key = [g]

/-- The entry that is meant for a path. -/
inductive Routed (t : Tree) (routes : List (String × η)) (p : Path) : String × η → Prop
  | own {e : String × η} (he : e ∈ routes) (hk : IsOwnKey t p e.1) : Routed t routes p e
  | group {e : String × η} (hown : ∀ f ∈ routes, ¬ IsOwnKey t p f.1) (he : e ∈ routes)
    (hk : IsGroupKey t p e.1) : Routed t routes p e
  | fallback {e : String × η} (hown : ∀ f ∈ routes, ¬ IsOwnKey t p f.1)
    (hgroup : ∀ f ∈ routes, ¬ IsGroupKey t p f.1) (he : e ∈ routes)
    (hk : Reference.isDefault e.1 = true) : Routed t routes p e

/-! ## Keys and seats -/

namespace Draft

variable {t : Tree} {p : Path} {key : String}

/-- One word leads to the subgroup of that name if there is one. -/
theorem routePath_ok_iff :
    routePath t key = .ok p ↔
      (∃ one, Reference.words key = [one]
        ∧ p = if (t.subgroup? one).isSome then .ofGroup one else .ofSubcommand one)
      ∨ ∃ group sub, Reference.words key = [group, sub] ∧ p = .nested group sub := by
  rw [routePath]
  rcases Reference.words key with _ | ⟨one, _ | ⟨two, _ | ⟨three, rest⟩⟩⟩ <;>
    simp [eq_comm (a := p)]

theorem seat?_eq_own_iff (ht : (t.children.map Child.name).Nodup)
    (hp : p.subcommand.isSome = true) : seat? t key = some (.path p) ↔ IsOwnKey t p key := by
  rw [seat?_eq_path_iff, routePath_ok_iff]
  constructor
  · rintro ⟨hd, ⟨one, hw, rfl⟩ | ⟨group, sub, hw, rfl⟩, hc⟩
    · refine ⟨hp, hc, hd, ?_⟩
      split_ifs at hp ⊢
      · cases hp
      · exact hw
    · exact ⟨hp, hc, hd, hw⟩
  · intro h
    refine ⟨h.plain, ?_, h.declared⟩
    rcases p with ⟨_ | group, _ | sub⟩
    · cases hp
    · have hg : t.subgroup? sub = none := Tree.subgroup?_eq_none ht h.declared
      exact .inl ⟨sub, h.words, by simp [hg, Path.ofSubcommand]⟩
    · cases hp
    · exact .inr ⟨group, sub, h.words, rfl⟩

theorem seat?_eq_group_iff {group : String} (hp : p.subgroup = some group) :
    seat? t key = some (.path (.ofGroup group)) ↔ IsGroupKey t p key := by
  rw [seat?_eq_path_iff, routePath_ok_iff]
  constructor
  · rintro ⟨hd, ⟨one, hw, he⟩ | ⟨_, sub, -, he⟩, hc⟩
    · split_ifs at he with hg
      · cases he
        exact ⟨hd, group, hp, hg, hw⟩
      · cases he
    · cases he
  · rintro ⟨hd, g, hg, hs, hw⟩
    obtain rfl : group = g := Option.some.inj (hp.symm.trans hg)
    exact ⟨hd, .inl ⟨group, hw, by rw [if_pos hs]⟩, hs⟩

end Draft

/-! ## What is found -/

namespace RouteTable

open Draft

variable {t : Tree} {routes : List (String × η)} {table : RouteTable η} {p : Path} {a : η}

/-- The handler of a subcommand's own route. -/
def ownRoute? (table : RouteTable η) (p : Path) : Option η :=
  if p.subcommand.isSome then table.get? p else none

/-- A path with a subgroup alone has no other route than that of the subgroup. -/
theorem resolve_eq (table : RouteTable η) (p : Path) :
    table.resolve p
      = ((table.ownRoute? p <|> p.groupOnly.bind table.get?) <|> table.fallback) := by
  rcases p with ⟨_ | group, _ | sub⟩
  · rfl
  · rfl
  · change ((table.get? (.ofGroup group) <|> table.get? (.ofGroup group)) <|> table.fallback)
      = (table.get? (.ofGroup group) <|> table.fallback)
    rcases table.get? (.ofGroup group) <;> rfl
  · rfl

/-- Where a part of the table holds the entries of some keys, it holds none if there is none. -/
theorem eq_none_iff_of_eq_some_iff {x : Option η} {k : String → Prop}
    (hx : ∀ a, x = some a ↔ ∃ e ∈ routes, k e.1 ∧ e.2 = a) : x = none ↔ ∀ e ∈ routes, ¬ k e.1 := by
  rw [Option.eq_none_iff_forall_ne_some]
  constructor
  · intro hn e he hk
    exact hn e.2 ((hx e.2).2 ⟨e, he, hk, rfl⟩)
  · intro hn a ha
    obtain ⟨e, he, hk, -⟩ := (hx a).1 ha
    exact hn e he hk

section Found

variable (ht : (t.children.map Child.name).Nodup)
  (h : routes.foldlM (addRoute t) .empty = .ok table)
include h

theorem fallback_eq_some_iff :
    table.fallback = some a ↔ ∃ e ∈ routes, Reference.isDefault e.1 = true ∧ e.2 = a := by
  simp only [← seat?_eq_fallback_iff (t := t)]
  change table.at? .fallback = some a ↔ _
  exact at?_of_foldlM h

theorem groupOnly_eq_some_iff :
    p.groupOnly.bind table.get? = some a ↔ ∃ e ∈ routes, IsGroupKey t p e.1 ∧ e.2 = a := by
  rcases hp : p.subgroup with _ | group
  · have hk : ∀ key, ¬ IsGroupKey t p key := fun key hk => by
      obtain ⟨g, hg, -⟩ := hk.group
      rw [hp] at hg
      cases hg
    simp [Path.groupOnly, hp, hk]
  · simp only [Path.groupOnly, hp, Option.map_some, Option.bind_some,
      ← seat?_eq_group_iff (t := t) hp]
    change table.at? (.path (.ofGroup group)) = some a ↔ _
    exact at?_of_foldlM h

include ht

theorem ownRoute?_eq_some_iff :
    table.ownRoute? p = some a ↔ ∃ e ∈ routes, IsOwnKey t p e.1 ∧ e.2 = a := by
  rw [ownRoute?]
  split_ifs with hp
  · simp only [← seat?_eq_own_iff ht hp]
    change table.at? (.path p) = some a ↔ _
    exact at?_of_foldlM h
  · simp only [false_iff]
    rintro ⟨e, -, hk, -⟩
    exact hp hk.subcommand

/-- The handler that is found is that of the entry that is meant. -/
theorem resolve_eq_some_iff :
    table.resolve p = some a ↔ ∃ e, Routed t routes p e ∧ e.2 = a := by
  have hown := fun a => ownRoute?_eq_some_iff (p := p) (a := a) ht h
  have hgroup := fun a => groupOnly_eq_some_iff (p := p) (a := a) h
  have hfallback := fun a => fallback_eq_some_iff (a := a) h
  rw [resolve_eq]
  constructor
  · intro hr
    rcases hx : table.ownRoute? p with _ | b
    · have hno := (eq_none_iff_of_eq_some_iff hown).1 hx
      rcases hy : p.groupOnly.bind table.get? with _ | b
      · rw [hx, hy] at hr
        obtain ⟨e, he, hk, ha⟩ := (hfallback a).1 hr
        exact ⟨e, .fallback hno ((eq_none_iff_of_eq_some_iff hgroup).1 hy) he hk, ha⟩
      · rw [hx, hy] at hr
        cases hr
        obtain ⟨e, he, hk, ha⟩ := (hgroup _).1 hy
        exact ⟨e, .group hno he hk, ha⟩
    · rw [hx] at hr
      cases hr
      obtain ⟨e, he, hk, ha⟩ := (hown _).1 hx
      exact ⟨e, .own he hk, ha⟩
  · rintro ⟨e, hr, rfl⟩
    cases hr with
    | own he hk =>
      rw [(hown e.2).2 ⟨e, he, hk, rfl⟩]
      rfl
    | group hno he hk =>
      rw [(eq_none_iff_of_eq_some_iff hown).2 hno, (hgroup e.2).2 ⟨e, he, hk, rfl⟩]
      rfl
    | fallback hno hng he hk =>
      rw [(eq_none_iff_of_eq_some_iff hown).2 hno, (eq_none_iff_of_eq_some_iff hgroup).2 hng,
        (hfallback e.2).2 ⟨e, he, hk, rfl⟩]
      rfl

end Found

end RouteTable

namespace Routed

variable {t : Tree} {routes routes' : List (String × η)} {p : Path} {e f : String × η}

theorem perm (h : Routed t routes p e) (hp : routes.Perm routes') : Routed t routes' p e := by
  cases h with
  | own he hk => exact .own (hp.mem_iff.1 he) hk
  | group hno he hk => exact .group (fun f hf => hno f (hp.mem_iff.2 hf)) (hp.mem_iff.1 he) hk
  | fallback hno hng he hk =>
    exact .fallback (fun f hf => hno f (hp.mem_iff.2 hf)) (fun f hf => hng f (hp.mem_iff.2 hf))
      (hp.mem_iff.1 he) hk

/-- Two entries that are meant for one path would take the same seat. -/
theorem eq_of_routed (ht : (t.children.map Child.name).Nodup)
    (hd : (routes.map fun e => Draft.seat? t e.1).Nodup) (he : Routed t routes p e)
    (hf : Routed t routes p f) : e = f := by
  have hseat : ∀ {seat}, e ∈ routes → f ∈ routes → Draft.seat? t e.1 = some seat →
      Draft.seat? t f.1 = some seat → e = f := fun hem hfm hes hfs =>
    List.inj_on_of_nodup_map hd hem hfm (hes.trans hfs.symm)
  cases he with
  | own he hk =>
    cases hf with
    | own hf hk' =>
      exact hseat he hf ((Draft.seat?_eq_own_iff ht hk.subcommand).2 hk)
        ((Draft.seat?_eq_own_iff ht hk.subcommand).2 hk')
    | group hno => exact absurd hk (hno e he)
    | fallback hno => exact absurd hk (hno e he)
  | group hno he hk =>
    cases hf with
    | own hf hk' => exact absurd hk' (hno f hf)
    | group _ hf hk' =>
      obtain ⟨g, hg, -⟩ := hk.group
      exact hseat he hf ((Draft.seat?_eq_group_iff hg).2 hk) ((Draft.seat?_eq_group_iff hg).2 hk')
    | fallback _ hng => exact absurd hk (hng e he)
  | fallback hno hng he hk =>
    cases hf with
    | own hf hk' => exact absurd hk' (hno f hf)
    | group _ hf hk' => exact absurd hk' (hng f hf)
    | fallback _ _ hf hk' =>
      exact hseat he hf (Draft.seat?_eq_fallback_iff.2 hk) (Draft.seat?_eq_fallback_iff.2 hk')

/-- What is meant for a path that is not declared is no subcommand's own entry. -/
theorem not_own (ht : (t.children.map Child.name).Nodup) (hp : t.contains p = false)
    (he : Routed t routes p e) (q : Path) : ¬ IsOwnKey t q e.1 := by
  intro hq
  cases he with
  | own _ hk =>
    rw [hk.declared] at hp
    cases hp
  | group _ _ hk =>
    obtain ⟨g, -, hg, hw⟩ := hk.group
    have hqw := hq.words
    have hqd := hq.declared
    have hqs := hq.subcommand
    rw [hw] at hqw
    rcases q with ⟨_ | group, _ | sub⟩
    · cases hqs
    · obtain rfl : g = sub := (List.cons.inj hqw).1
      rw [Tree.subgroup?_eq_none ht hqd] at hg
      cases hg
    · cases hqs
    · cases hqw
  | fallback _ _ _ hk =>
    rw [hq.plain] at hk
    cases hk

end Routed

end SlashCommands
