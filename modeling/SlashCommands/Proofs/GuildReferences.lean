import SlashCommands.Proofs.SingleAddition

/-!
# References by id

Guilds are found by id or by name, whichever guild is listed first, so the ids and names of all
guilds share one space. The id of a guild finds that guild unless one listed before it is named
like it (`findGuild_id`); this namesake then gets the commands, in the first phase as in a
registration by itself (`submitted_to_bearer`). With no other guild of that name the order of the
list does not matter (`bearer_of_perm`).
-/

namespace SlashCommands

namespace GuildContext

/-- Whether the guild has a name, and the reference is that name. -/
def isNamed (c : GuildContext) (reference : String) : Bool :=
  !c.name.isEmpty && c.name == reference

/-- The guild that is found by the id of `g`: the first one listed before it that is named like
this id, or else the one with the id. -/
def bearer (contexts : List GuildContext) (g : GuildContext) : GuildContext :=
  ((contexts.takeWhile fun c => c.id != g.id).find? fun c => c.isNamed g.id).getD g

variable {contexts listed : List GuildContext} {c g : GuildContext}

theorem isMeant_eq (reference : String) :
    c.isMeant reference = (c.id == reference || c.isNamed reference) :=
  rfl

theorem bearer_cons_self (h : c.id = g.id) : bearer (c :: contexts) g = g := by
  simp [bearer, h]

theorem bearer_cons_of_ne (h : c.id ≠ g.id) :
    bearer (c :: contexts) g = if c.isNamed g.id then c else bearer contexts g := by
  rw [bearer, bearer, List.takeWhile_cons_of_pos (by simpa using h), List.find?_cons]
  split <;> simp_all

/-- Only another guild that is named like the id comes in the place of the guild itself. -/
theorem bearer_eq_or (g : GuildContext) :
    ∀ contexts : List GuildContext, bearer contexts g = g
      ∨ ∃ c ∈ contexts, c.isNamed g.id = true ∧ c.id ≠ g.id ∧ bearer contexts g = c
  | [] => .inl rfl
  | c :: contexts => by
    by_cases hid : c.id = g.id
    · exact .inl (bearer_cons_self hid)
    rw [bearer_cons_of_ne hid]
    split
    · rename_i hnamed
      exact .inr ⟨c, List.mem_cons_self, hnamed, hid, rfl⟩
    · refine (bearer_eq_or g contexts).imp_right ?_
      rintro ⟨d, hd, hrest⟩
      exact ⟨d, List.mem_cons_of_mem c hd, hrest⟩

/-- A guild whose id no other guild is named like is found by it, however the guilds are listed. -/
theorem bearer_of_perm (hp : listed.Perm contexts)
    (hother : ∀ c ∈ contexts, c.isNamed g.id = true → c.id = g.id) : bearer listed g = g := by
  rcases bearer_eq_or g listed with h | ⟨c, hc, hnamed, hne, -⟩
  · exact h
  · exact absurd (hother c (hp.subset hc) hnamed) hne

end GuildContext

open GuildContext

variable {η κ : Type} {contexts : List GuildContext} {g : GuildContext}

theorem findGuild_cons (c : GuildContext) (contexts : List GuildContext) (reference : String) :
    findGuild (c :: contexts) reference
      = if c.isMeant reference then some c.id else findGuild contexts reference := by
  rw [findGuild, List.find?_cons]
  split <;> simp_all [findGuild]

theorem findGuild_id (hg : g ∈ contexts) :
    findGuild contexts g.id = some (bearer contexts g).id := by
  induction contexts with
  | nil => cases hg
  | cons c contexts ih =>
    rw [findGuild_cons, isMeant_eq]
    by_cases hid : c.id = g.id
    · rw [bearer_cons_self hid, hid, beq_self_eq_true, Bool.true_or, if_pos rfl]
    · have hg' : g ∈ contexts := (List.mem_cons.1 hg).resolve_left fun h => hid (h ▸ rfl)
      rw [bearer_cons_of_ne hid, beq_false_of_ne hid, Bool.false_or, ih hg']
      split <;> rfl

namespace Snapshot

variable {s : Snapshot η κ} {registrar : Registrar} {t : Spec η κ}

theorem submits_bearer (hg : g ∈ contexts) (hc : registrar.contexts = .ok contexts)
    (hn : (s.specs.map (·.name)).Nodup) (ht : t ∈ s.specs)
    (hr : g.id ∈ t.references s.debugGuilds) :
    s.Submits registrar (.guild (bearer contexts g).id) t.name t.payload := by
  rw [submits_iff hn ht, mem_commandsFor_guild]
  exact ⟨⟨ht, contexts, hc, g.id, hr, findGuild_id hg⟩, rfl⟩

theorem scope_of_submits (hg : g ∈ contexts) (hc : registrar.contexts = .ok contexts)
    (hn : (s.specs.map (·.name)).Nodup) (ht : t ∈ s.specs) (hr : g.id ∈ t.references s.debugGuilds)
    (hsole : ∀ reference ∈ t.references s.debugGuilds, reference = g.id) {scope : Scope}
    {payload : CommandPayload} (hs : s.Submits registrar scope t.name payload) :
    scope = .guild (bearer contexts g).id := by
  have hmem := ((submits_iff hn ht).1 hs).1
  rcases scope with _ | id
  · rw [(mem_commandsFor_global.1 hmem).2] at hr
    cases hr
  · obtain ⟨-, listed, hl, reference, href, hid⟩ := mem_commandsFor_guild.1 hmem
    cases hc.symm.trans hl
    rw [hsole reference href, findGuild_id hg] at hid
    rw [Option.some.inj hid]

end Snapshot

namespace Addition

variable {a : Addition η κ} {answers : Registrar}

theorem mem_scopes_of_target {reference : String} (hr : reference ∈ a.targets.toList)
    {scope : Scope} :
    scope ∈ a.scopes (.ok contexts) ↔
      ∃ target ∈ a.targets.toList,
        ∃ id, findGuild contexts target = some id ∧ scope = .guild id := by
  have hempty : a.targets.isEmpty ≠ true := by
    rw [ne_eq, SortedMap.isEmpty_iff]
    exact List.ne_nil_of_mem hr
  rw [scopes, if_neg hempty, guilds, List.mem_map]
  constructor
  · rintro ⟨id, hid, rfl⟩
    obtain ⟨target, ht, hf⟩ := mem_places_fst.1 hid
    exact ⟨target, ht, id, hf, rfl⟩
  · rintro ⟨target, ht, id, hf, rfl⟩
    exact ⟨id, mem_places_fst.2 ⟨target, ht, hf⟩, rfl⟩

theorem creates_in_bearer (hg : g ∈ contexts) (hc : answers.contexts = .ok contexts)
    (hr : g.id ∈ a.targets.toList) :
    .create (.guild (bearer contexts g).id) a.spec.payload
      ∈ (a.runWith answers).filterMap Activity.call? := by
  rw [mem_runWith_creates, hc, mem_scopes_of_target hr]
  exact ⟨⟨g.id, hr, _, findGuild_id hg, rfl⟩, rfl⟩

theorem scope_of_creates (hg : g ∈ contexts) (hc : answers.contexts = .ok contexts)
    (hr : g.id ∈ a.targets.toList) (hsole : ∀ reference ∈ a.targets.toList, reference = g.id)
    {scope : Scope} {payload : CommandPayload}
    (hs : .create scope payload ∈ (a.runWith answers).filterMap Activity.call?) :
    scope = .guild (bearer contexts g).id := by
  rw [mem_runWith_creates, hc, mem_scopes_of_target hr] at hs
  obtain ⟨⟨reference, href, id, hid, rfl⟩, -⟩ := hs
  rw [hsole reference href, findGuild_id hg] at hid
  rw [Option.some.inj hid]

end Addition

/-- Both ways of registering a command submit it, for a target that is the id of a listed guild, to
the scope of that guild or of the namesake that is listed before it, and a command without another
target to no other scope. Where no other guild is named like the id, that scope is the guild's own,
in whatever order the guilds are listed. -/
theorem submitted_to_bearer (hg : g ∈ contexts) :
    (∀ (s : Snapshot η κ) (registrar : Registrar), (s.specs.map (·.name)).Nodup →
      registrar.contexts = .ok contexts → ∀ t ∈ s.specs, g.id ∈ t.references s.debugGuilds →
        s.Submits registrar (.guild (bearer contexts g).id) t.name t.payload
          ∧ ((∀ reference ∈ t.references s.debugGuilds, reference = g.id) →
            ∀ scope payload, s.Submits registrar scope t.name payload →
              scope = .guild (bearer contexts g).id))
      ∧ (∀ (a : Addition η κ) (answers : Registrar), answers.contexts = .ok contexts →
        g.id ∈ a.targets.toList →
          .create (.guild (bearer contexts g).id) a.spec.payload
              ∈ (a.runWith answers).filterMap Activity.call?
            ∧ ((∀ reference ∈ a.targets.toList, reference = g.id) →
              ∀ scope payload,
                .create scope payload ∈ (a.runWith answers).filterMap Activity.call? →
                  scope = .guild (bearer contexts g).id))
      ∧ ((∀ c ∈ contexts, c.isNamed g.id = true → c.id = g.id) →
        ∀ listed : List GuildContext, listed.Perm contexts → bearer listed g = g) := by
  refine ⟨fun s registrar hn hc t ht hr => ?_, fun a answers hc hr => ?_,
    fun hother listed hp => ?_⟩
  · exact ⟨Snapshot.submits_bearer hg hc hn ht hr, fun hsole _ _ hs =>
      Snapshot.scope_of_submits hg hc hn ht hr hsole hs⟩
  · exact ⟨Addition.creates_in_bearer hg hc hr, fun hsole _ _ hs =>
      Addition.scope_of_creates hg hc hr hsole hs⟩
  · exact bearer_of_perm hp hother

/-- The first guild has the id of the second one for its name. -/
def namesakes : List GuildContext :=
  [⟨"100", "200"⟩, ⟨"200", "Lab"⟩]

/-- A command for the second guild. -/
def labCommand : Spec Unit Unit :=
  { (Draft.new "ping" "" : Draft Unit).toSpec [] (.single ()) with guilds := .ofList ["200"] }

def labRegistrar (contexts : List GuildContext) : Registrar :=
  ⟨.ok contexts, fun _ _ => .ok (), fun _ _ => .ok ()⟩

/-- The registration of this command by itself. -/
def labAddition (contexts : List GuildContext) : Addition Unit Unit :=
  ⟨labCommand, labCommand.targets .empty, labRegistrar contexts, 0⟩

theorem labCommand_submitted_to_namesake :
    (⟨[labCommand], .empty⟩ : Snapshot Unit Unit).Submits (labRegistrar namesakes) (.guild "100")
        "ping" labCommand.payload
      ∧ .create (.guild "100") labCommand.payload
        ∈ ((labAddition namesakes).runWith (labRegistrar namesakes)).filterMap Activity.call?
      ∧ bearer namesakes.reverse ⟨"100", "200"⟩ = ⟨"100", "200"⟩ := by
  have hlab : (⟨"200", "Lab"⟩ : GuildContext) ∈ namesakes := by decide
  have hnamesake : (⟨"100", "200"⟩ : GuildContext) ∈ namesakes := by decide
  obtain ⟨hsync, hadd, -⟩ := submitted_to_bearer (η := Unit) (κ := Unit) hlab
  obtain ⟨-, -, hself⟩ := submitted_to_bearer (η := Unit) (κ := Unit) hnamesake
  exact ⟨(hsync ⟨[labCommand], .empty⟩ (labRegistrar namesakes) (by decide) rfl labCommand
      List.mem_cons_self (by decide)).1,
    (hadd (labAddition namesakes) (labRegistrar namesakes) rfl (by decide)).1,
    hself (by decide) _ (List.reverse_perm _)⟩

/-- Neither way submits the command to the guild whose id is its target. -/
theorem labCommand_kept_from_its_guild :
    (namesakes.map (·.id)).Nodup ∧ "200" ∈ labCommand.references .empty
      ∧ "200" ∈ namesakes.map (·.id)
      ∧ (¬ ∃ payload, (⟨[labCommand], .empty⟩ : Snapshot Unit Unit).Submits (labRegistrar namesakes)
        (.guild "200") "ping" payload)
      ∧ ¬ ∃ payload, .create (.guild "200") payload
        ∈ ((labAddition namesakes).runWith (labRegistrar namesakes)).filterMap Activity.call? := by
  refine ⟨by decide, by decide, by decide, ?_, ?_⟩
  · rintro ⟨payload, hs⟩
    have h := Snapshot.scope_of_submits (g := ⟨"200", "Lab"⟩) (t := labCommand) (by decide) rfl
      (by decide) List.mem_cons_self (by decide) (by decide) hs
    exact absurd h (by decide)
  · rintro ⟨payload, hs⟩
    have h := Addition.scope_of_creates (g := ⟨"200", "Lab"⟩) (by decide) rfl (by decide)
      (by decide) hs
    exact absurd h (by decide)

end SlashCommands
