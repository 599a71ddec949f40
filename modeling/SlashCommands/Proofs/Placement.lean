import SlashCommands.Proofs.SortedEntries
import SlashCommands.Registry.Sync

/-!
# Where commands are placed

A command goes to the guilds that its targets mean. Placing many commands target by target gathers
in each guild exactly the commands that go there, once each and in their order, however many of
their targets mean it (`Placement.entries_ofSpecs`), and notes the targets that mean no guild
(`Placement.mem_unknown_ofSpecs`). A single command that is added goes to the same guilds
(`Addition.mem_places_fst`).
-/

namespace SlashCommands

variable {η κ : Type}

theorem findGuild_eq_none_iff {contexts : List GuildContext} {reference : String} :
    findGuild contexts reference = none ↔ ∀ c ∈ contexts, c.isMeant reference = false := by
  simp [findGuild]

namespace Spec

/-- What refers to the guilds of a command: its own references, then those of every command. -/
def references (s : Spec η κ) (debugGuilds : SortedSet String) : List String :=
  s.guilds.toList ++ debugGuilds.toList

/-- Whether the command is registered in the guild. -/
def goesTo (contexts : List GuildContext) (debugGuilds : SortedSet String) (id : String)
    (s : Spec η κ) : Bool :=
  (s.references debugGuilds).any fun reference => findGuild contexts reference == some id

variable {s : Spec η κ} {debugGuilds : SortedSet String}

theorem mem_targets {target : String} :
    target ∈ (s.targets debugGuilds).toList ↔ target ∈ s.references debugGuilds :=
  SortedSet.mem_addAll.trans List.mem_append.symm

theorem targets_isEmpty_iff :
    (s.targets debugGuilds).isEmpty = true ↔ s.references debugGuilds = [] := by
  rw [SortedMap.isEmpty_iff, List.eq_nil_iff_forall_not_mem, List.eq_nil_iff_forall_not_mem]
  exact forall_congr' fun target => not_congr mem_targets

theorem goesTo_iff {contexts : List GuildContext} {id : String} :
    s.goesTo contexts debugGuilds id = true ↔
      ∃ reference ∈ s.references debugGuilds, findGuild contexts reference = some id := by
  simp [goesTo]

theorem targets_any {contexts : List GuildContext} {id : String} :
    (s.targets debugGuilds).toList.any (findGuild contexts · == some id)
      = s.goesTo contexts debugGuilds id := by
  rw [Bool.eq_iff_iff, goesTo_iff]
  simp [mem_targets]

end Spec

namespace Placement

variable {contexts : List GuildContext}

/-- The commands placed in one guild. -/
def commandsIn (p : Placement η κ) (id : String) : List (Spec η κ) :=
  (p.guilds.find? id).getD []

/-! ## One target -/

theorem commandsIn_add (s : Spec η κ) (p : Placement η κ) (target id : String) :
    (add contexts s p target).commandsIn id
      = if findGuild contexts target = some id ∧ ((p.commandsIn id).any (·.name == s.name)) = false
        then p.commandsIn id ++ [s] else p.commandsIn id := by
  rw [add]
  rcases findGuild contexts target with _ | place
  · rfl
  by_cases hid : id = place
  · subst hid
    dsimp only
    change commandsIn (if (p.commandsIn id).any (·.name == s.name) then p
      else { p with guilds := p.guilds.insert id (p.commandsIn id ++ [s]) }) id = _
    rcases (p.commandsIn id).any (·.name == s.name) with _ | _ <;> simp [commandsIn]
  · have hne : some place ≠ some id := fun h => hid (Option.some.inj h).symm
    rw [if_neg fun h => hne h.1]
    dsimp only
    split_ifs
    · rfl
    · rw [commandsIn, SortedMap.find?_insert_of_ne hid, commandsIn]

theorem mem_unknown_add {s : Spec η κ} {p : Placement η κ} {target reference : String} :
    reference ∈ (add contexts s p target).unknown.toList ↔
      reference ∈ p.unknown.toList ∨ reference = target ∧ findGuild contexts target = none := by
  rw [add]
  split
  · rename_i h
    rw [SortedSet.mem_add, h, eq_self, and_true]
  · rename_i h
    rw [h]
    dsimp only
    split_ifs <;> simp

/-- Nothing is filed under a guild that no command goes to. -/
def Filled (p : Placement η κ) : Prop :=
  ∀ e ∈ p.guilds.entries, e.2 ≠ []

theorem Filled.add {p : Placement η κ} (h : p.Filled) (s : Spec η κ) (target : String) :
    (Placement.add contexts s p target).Filled := by
  intro e he
  rw [Placement.add] at he
  split at he
  · exact h e he
  · dsimp only at he
    split_ifs at he
    · exact h e he
    · rcases SortedMap.mem_insert he with rfl | he
      · exact List.append_ne_nil_of_right_ne_nil _ (List.cons_ne_nil _ _)
      · exact h e he

/-! ## All targets of a command -/

/-- The command is put behind the others with the first target that means the guild; the further
ones find it there. -/
theorem commandsIn_foldl_add {s : Spec η κ} {id : String} {before : List (Spec η κ)}
    (hb : s.name ∉ before.map (·.name)) :
    ∀ (targets : List String) (found : Bool) (p : Placement η κ),
      p.commandsIn id = before ++ (if found then [s] else []) →
      (targets.foldl (add contexts s) p).commandsIn id
        = before ++ if found || targets.any (findGuild contexts · == some id) then [s] else []
  | [], found, p, hp => by simpa using hp
  | target :: targets, found, p, hp => by
    have hstep : (add contexts s p target).commandsIn id
        = before ++ if found || findGuild contexts target == some id then [s] else [] := by
      have hany : before.any (·.name == s.name) = false := by
        simpa [List.any_eq_false] using hb
      rw [commandsIn_add, hp]
      rcases found with _ | _
      · by_cases ht : findGuild contexts target = some id <;> simp [ht, hany]
      · simp
    rw [List.foldl_cons, commandsIn_foldl_add hb targets _ _ hstep, List.any_cons, Bool.or_assoc]

theorem mem_unknown_foldl_add {s : Spec η κ} {p : Placement η κ} {targets : List String}
    {reference : String} :
    reference ∈ (targets.foldl (add contexts s) p).unknown.toList ↔
      reference ∈ p.unknown.toList
        ∨ reference ∈ targets ∧ findGuild contexts reference = none := by
  refine (gathered_foldl_iff (f := add contexts s)
    (g := fun p => reference ∈ p.unknown.toList) (fun _ _ => mem_unknown_add) targets p).trans ?_
  refine or_congr_right ⟨?_, fun ⟨hm, hf⟩ => ⟨reference, hm, rfl, hf⟩⟩
  rintro ⟨target, hm, rfl, hf⟩
  exact ⟨hm, hf⟩

/-! ## All commands -/

variable {debugGuilds : SortedSet String}

theorem commandsIn_foldl (id : String) :
    ∀ (specs before : List (Spec η κ)) (p : Placement η κ),
      ((before ++ specs).map (·.name)).Nodup →
      p.commandsIn id = before.filter (·.goesTo contexts debugGuilds id) →
      (specs.foldl (fun p s => (s.targets debugGuilds).toList.foldl (add contexts s) p)
        p).commandsIn id = (before ++ specs).filter (·.goesTo contexts debugGuilds id)
  | [], before, p, _, hp => by simpa using hp
  | s :: specs, before, p, hn, hp => by
    have hs : s.name ∉ (before.filter (·.goesTo contexts debugGuilds id)).map (·.name) := by
      intro hm
      rw [List.map_append, List.map_cons] at hn
      exact (List.nodup_append.1 hn).2.2 _ ((List.filter_sublist.map _).subset hm) _
        List.mem_cons_self rfl
    have hstep : ((s.targets debugGuilds).toList.foldl (add contexts s) p).commandsIn id
        = before.filter (·.goesTo contexts debugGuilds id)
          ++ if s.goesTo contexts debugGuilds id then [s] else [] := by
      rw [commandsIn_foldl_add hs _ false p (by simpa using hp), Bool.false_or, Spec.targets_any]
    rw [List.append_cons] at hn ⊢
    rw [List.foldl_cons]
    refine commandsIn_foldl id specs (before ++ [s]) _ hn ?_
    rw [hstep, List.filter_append, List.filter_singleton, Bool.cond_eq_ite]

variable {specs : List (Spec η κ)}

theorem commandsIn_ofSpecs (hn : (specs.map (·.name)).Nodup) (id : String) :
    (ofSpecs contexts debugGuilds specs).commandsIn id
      = specs.filter (·.goesTo contexts debugGuilds id) :=
  commandsIn_foldl id specs [] _ hn rfl

theorem filled_ofSpecs : (ofSpecs contexts debugGuilds specs).Filled := by
  refine List.foldlRecOn specs _ (motive := Filled) (by rintro e ⟨⟩) fun p hp s _ => ?_
  exact List.foldlRecOn _ _ (motive := Filled) hp fun p hp target _ => hp.add s target

theorem mem_unknown_ofSpecs {reference : String} :
    reference ∈ (ofSpecs contexts debugGuilds specs).unknown.toList ↔
      (∃ s ∈ specs, reference ∈ s.references debugGuilds)
        ∧ findGuild contexts reference = none := by
  refine (gathered_foldl_iff
    (f := fun (p : Placement η κ) s => (s.targets debugGuilds).toList.foldl (add contexts s) p)
    (g := fun p => reference ∈ p.unknown.toList) (fun _ _ => mem_unknown_foldl_add) specs
    _).trans ?_
  constructor
  · rintro (h | ⟨s, hs, ht, hf⟩)
    · cases h
    · exact ⟨⟨s, hs, Spec.mem_targets.1 ht⟩, hf⟩
  · rintro ⟨⟨s, hs, ht⟩, hf⟩
    exact .inr ⟨s, hs, Spec.mem_targets.2 ht, hf⟩

/-- Each guild that is placed in has exactly the commands that go there. -/
theorem entries_ofSpecs (hn : (specs.map (·.name)).Nodup) :
    (ofSpecs contexts debugGuilds specs).guilds.entries
      = (ofSpecs contexts debugGuilds specs).guilds.keys.map fun id =>
        (id, specs.filter (·.goesTo contexts debugGuilds id)) := by
  rw [SortedMap.keys, List.map_map]
  refine (List.map_id _).symm.trans (List.map_congr_left fun e he => ?_)
  have hc : (ofSpecs contexts debugGuilds specs).commandsIn e.1 = _ := commandsIn_ofSpecs hn e.1
  rw [commandsIn, SortedMap.find?_eq_some_iff.2 he, Option.getD_some] at hc
  rw [Function.comp_apply, ← hc]
  rfl

theorem mem_keys_ofSpecs (hn : (specs.map (·.name)).Nodup) {id : String} :
    id ∈ (ofSpecs contexts debugGuilds specs).guilds.keys ↔
      specs.filter (·.goesTo contexts debugGuilds id) ≠ [] := by
  rw [← commandsIn_ofSpecs hn]
  constructor
  · intro h
    obtain ⟨e, he, rfl⟩ := List.mem_map.1 h
    rw [commandsIn, SortedMap.find?_eq_some_iff.2 he]
    exact filled_ofSpecs e he
  · intro h
    rw [← SortedMap.contains_iff, SortedMap.contains]
    by_contra hc
    rw [commandsIn, Option.not_isSome_iff_eq_none.1 hc] at h
    exact h rfl

end Placement

namespace Addition

theorem mem_places_fst {a : Addition η κ} {contexts : List GuildContext} {id : String} :
    id ∈ (a.places contexts).1.toList ↔
      ∃ target ∈ a.targets.toList, findGuild contexts target = some id := by
  simp [places, SortedSet.mem_ofList]

theorem mem_places_snd {a : Addition η κ} {contexts : List GuildContext} {reference : String} :
    reference ∈ (a.places contexts).2 ↔
      reference ∈ a.targets.toList ∧ findGuild contexts reference = none := by
  simp [places]

end Addition

end SlashCommands
