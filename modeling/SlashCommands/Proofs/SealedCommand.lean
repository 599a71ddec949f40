import SlashCommands.Builder
import SlashCommands.Proofs.SoundWording

/-!
# Sealed commands

What is known of every command that was sealed, whatever was called on its builder and in whichever
order (`Builder.sealed_sound`). The tree owes most of it to the edits; sealing adds the limits on
the numbers of children (`Tree.checkStructure_ok`), the description of the command, and what the
keys of callbacks and handlers point at (`Draft.resolveCallbacks_sound`,
`Draft.resolveHandler_sound`).
-/

namespace SlashCommands

open Checked

/-- Each callback belongs to an argument that is there and asks for it, and no two to the same. -/
structure SoundCallbacks {κ : Type} (t : Tree) (callbacks : List (Slot × κ)) : Prop where
  starred : ∀ c ∈ callbacks, ∃ as a, t.arguments? c.1.1 = some as ∧ a ∈ as ∧ a.name = c.1.2
    ∧ a.autocomplete = true
  distinct : (callbacks.map (·.1)).Nodup

/-- Each route leads to a subcommand or subgroup that is there, and no two to the same. -/
structure SoundRoutes {η : Type} (t : Tree) (table : RouteTable η) : Prop where
  declared : ∀ r ∈ table.routes, r.1.isRoot = false ∧ t.contains r.1 = true
  distinct : (table.routes.map (·.1)).Nodup

/-- Every route of a table leads to a place of the tree. -/
def SoundHandler {η : Type} (t : Tree) : Handler η → Prop
  | .single _ => True
  | .routes table => SoundRoutes t table

/-- What is known of a sealed command, down to each argument of its tree (`Tree.Sound`). -/
structure Spec.Sound {η κ : Type} (s : Spec η κ) : Prop where
  named : Named s.name
  described : Described s.description
  translated : Translated s.localizations
  tree : s.tree.Sound
  fewChildren : s.tree.children.length ≤ 25
  fewSubcommands : ∀ g, .subgroup g ∈ s.tree.children → g.subcommands.length ≤ 25
  callbacks : SoundCallbacks s.tree s.callbacks
  handler : SoundHandler s.tree s.handler
  roles : Referring s.roles
  channels : Referring s.channels
  guilds : Referring s.guilds
  payload : s.payload
    = .compile s.name s.description s.localizations s.tree s.permissions.toList

/-! ## What sealing checks -/

theorem RouteTable.contains_eq_false_iff {η : Type} {table : RouteTable η} {p : Path} :
    table.contains p = false ↔ p ∉ table.routes.map (·.1) := by
  rw [← any_beq_eq_false_iff, contains, get?, Option.isSome_map, List.isSome_find?]

theorem Tree.checkStructure_ok {t : Tree} (h : t.checkStructure = .ok ()) :
    t.children.length ≤ 25 ∧ ∀ g, .subgroup g ∈ t.children → g.subcommands.length ≤ 25 := by
  simp only [checkStructure, bind_ok_iff, exists_unit_ok_iff, Check.count_ok_iff] at h
  obtain ⟨-, ⟨-, hl⟩, hc, -⟩ := h
  refine ⟨hl, fun g hg => ?_⟩
  have hg' := forM_ok_iff.1 hc _ hg
  exact (Check.count_ok_iff.1 hg').2

theorem Tree.apart_of_checkStructure {t : Tree} (h : t.checkStructure = .ok ()) :
    t.arguments = [] ∨ t.children = [] := by
  simp only [checkStructure, bind_ok_iff, exists_unit_ok_iff, Check.rule_ok_iff,
    Bool.and_eq_false_iff, Bool.not_eq_false', List.isEmpty_iff] at h
  exact h.1

namespace Draft

theorem exists_of_isStarred {t : Tree} {slot : Slot} (h : isStarred t slot = true) :
    ∃ as a, t.arguments? slot.1 = some as ∧ a ∈ as ∧ a.name = slot.2 ∧ a.autocomplete = true := by
  rw [isStarred, Option.any_eq_true] at h
  obtain ⟨a, ha, hs⟩ := h
  have hm := List.mem_of_find?_eq_some ha
  rcases has : t.arguments? slot.1 with _ | as
  · simp [has] at hm
  · exact ⟨as, a, rfl, by simpa [has] using hm, by simpa using List.find?_some ha, hs⟩

variable {κ η : Type}

theorem addCallback_sound {t : Tree} {stored stored' : List (Slot × κ)}
    (h : SoundCallbacks t stored) {entry : String × κ}
    (hc : addCallback t stored entry = .ok stored') : SoundCallbacks t stored' := by
  simp only [addCallback, bind_ok_iff] at hc
  obtain ⟨target, -, hc⟩ := hc
  split at hc
  · simp only [bind_ok_iff, exists_unit_ok_iff, Check.rule_ok_iff, Check.notDuplicate_ok_iff,
      pure_ok_iff, Bool.not_eq_false'] at hc
    obtain ⟨hs, hd, rfl⟩ := hc
    exact ⟨forall_mem_concat h.starred (exists_of_isStarred hs),
      nodup_map_concat h.distinct (any_beq_eq_false_iff.1 hd)⟩
  · cases hc

theorem resolveCallbacks_sound {d : Draft κ} {stored : List (Slot × κ)}
    (h : d.resolveCallbacks = .ok stored) : SoundCallbacks d.tree stored :=
  foldlM_keeps (SoundCallbacks d.tree) (fun _ _ _ _ hb hc => addCallback_sound hb hc)
    (show SoundCallbacks d.tree [] from ⟨by simp, by simp⟩) h

theorem routePath_not_root {t : Tree} {key : String} {p : Path} (h : routePath t key = .ok p) :
    p.isRoot = false := by
  rw [routePath] at h
  split at h
  · cases h
    split_ifs <;> rfl
  · cases h
    rfl
  · cases h

theorem addRoute_sound {t : Tree} {table table' : RouteTable η} (h : SoundRoutes t table)
    {entry : String × η} (hr : addRoute t table entry = .ok table') : SoundRoutes t table' := by
  rw [addRoute] at hr
  split_ifs at hr
  · simp only [bind_ok_iff, exists_unit_ok_iff, pure_ok_iff] at hr
    obtain ⟨-, rfl⟩ := hr
    exact ⟨h.declared, h.distinct⟩
  · simp only [bind_ok_iff, exists_unit_ok_iff, Check.known_ok_iff, Check.notDuplicate_ok_iff,
      pure_ok_iff] at hr
    obtain ⟨p, hp, ht, hd, rfl⟩ := hr
    rw [RouteTable.contains_eq_false_iff] at hd
    exact ⟨forall_mem_concat h.declared ⟨routePath_not_root hp, ht⟩,
      nodup_map_concat h.distinct hd⟩

theorem resolveHandler_sound {t : Tree} {terminal : Terminal η} {handler : Handler η}
    (h : resolveHandler t terminal = .ok handler) : SoundHandler t handler := by
  cases terminal with
  | action =>
    cases h
    trivial
  | actions routes =>
    simp only [resolveHandler, bind_ok_iff, pure_ok_iff] at h
    obtain ⟨table, ht, rfl⟩ := h
    exact foldlM_keeps (SoundRoutes t) (fun _ _ _ _ hb hc => addRoute_sound hb hc)
      (show SoundRoutes t .empty from ⟨by rintro r ⟨⟩, List.nodup_nil⟩) ht

theorem prepare_ok_iff {d documented : Draft κ} {callbacks : List (Slot × κ)} :
    d.prepare = .ok (documented, callbacks) ↔
      d.applyDocs = .ok documented ∧ Described documented.description
        ∧ documented.tree.checkStructure = .ok ()
        ∧ (∀ node ∈ documented.tree.nodes, ∀ a ∈ node.2, a.check = .ok ())
        ∧ documented.resolveCallbacks = .ok callbacks := by
  simp only [prepare, bind_ok_iff, exists_unit_ok_iff, Check.description_ok_iff, forM_ok_iff,
    pure_ok_iff, Prod.mk.injEq]
  constructor
  · rintro ⟨d', hd, hdesc, hstructure, hchecks, stored, hc, rfl, rfl⟩
    exact ⟨hd, hdesc, hstructure, hchecks, hc⟩
  · rintro ⟨hd, hdesc, hstructure, hchecks, hc⟩
    exact ⟨documented, hd, hdesc, hstructure, hchecks, callbacks, hc, rfl, rfl⟩

/-- A sealed command is the documented draft with its resolved callbacks and handlers. -/
theorem finish_ok_iff {d : Draft κ} {terminal : Terminal η} {s : Spec η κ} :
    (d.finish terminal).2 = .ok s ↔
      ∃ documented callbacks handler, d.prepare = .ok (documented, callbacks)
        ∧ resolveHandler documented.tree terminal = .ok handler
        ∧ s = documented.toSpec callbacks handler := by
  rw [finish]
  rcases d.prepare with fault | ⟨documented, callbacks⟩
  · simp
  · simp [map_ok_iff, eq_comm (a := s)]

theorem finish_sound {d : Draft κ} (h : d.Sound) {terminal : Terminal η} {s : Spec η κ}
    (hs : (d.finish terminal).2 = .ok s) : s.Sound := by
  obtain ⟨documented, callbacks, handler, hp, hh, rfl⟩ := finish_ok_iff.1 hs
  obtain ⟨hd, hdesc, hstructure, -, hc⟩ := prepare_ok_iff.1 hp
  have hsound := h.applyDocs hd
  have hlimits := Tree.checkStructure_ok hstructure
  exact
    { named := hsound.named
      described := hdesc
      translated := hsound.translated
      tree := hsound.tree
      fewChildren := hlimits.1
      fewSubcommands := hlimits.2
      callbacks := resolveCallbacks_sound hc
      handler := resolveHandler_sound hh
      roles := hsound.roles
      channels := hsound.channels
      guilds := hsound.guilds
      payload := rfl }

end Draft

/-! ## From the first call to the last -/

namespace Builder

variable {κ η : Type}

theorem finish_ok_iff {b : Builder κ} {terminal : Draft.Terminal η} {s : Spec η κ} :
    (b.finish terminal).2 = .ok s ↔ b.fault = none ∧ (b.draft.finish terminal).2 = .ok s := by
  rw [finish]
  rcases b.fault <;> simp

/-- Whatever is called on the builder of a command, if the command is sealed in the end, it is
sound. -/
theorem sealed_sound {name description : String} {es : List (Edit κ)}
    {terminal : Draft.Terminal η} {s : Spec η κ}
    (h : (((new name description).edits es).finish terminal).2 = .ok s) : s.Sound := by
  rw [finish] at h
  split at h
  · cases h
  · rename_i hf
    exact Draft.finish_sound (edits_sound (new_sound name description) es hf) h

/-- Calls that declare nodes both by name and by declaration, and describe them afterwards. -/
def manageEdits : List (Edit Unit) :=
  [.argument "role add <*name: string> [size: 1 <= x <= 5]", .autocomplete "role add <name>" (),
    .subgroup "team" "Teams", .subcommand "team list" "Lists the teams", .channel " 7 ",
    .require "Admins", .localize "de" "Verwaltet",
    .docs [("role add", .plain "Adds a role"), ("$default", .plain "Manages")]]

theorem manageEdits_sealed_sound :
    ∃ s, (((new "manage" "").edits manageEdits).finish
        (.actions [("role", ()), ("$default", ())])).2 = .ok s ∧ s.Sound := by
  have h : (((new "manage" "").edits manageEdits).finish
      (.actions [("role", ()), ("$default", ())])).2.isOk = true := by
    decide +kernel
  rcases hs : (((new "manage" "").edits manageEdits).finish
      (.actions [("role", ()), ("$default", ())])).2 with fault | s
  · rw [hs] at h
    cases h
  · exact ⟨s, rfl, sealed_sound hs⟩

end Builder

end SlashCommands
