import SlashCommands.Proofs.RegistryIndex
import SlashCommands.Proofs.SyncReport

/-!
# Registering a command by itself

A command that comes late is registered by itself, one that comes early together with all others.
Both ways lead to the same scopes with the same payload, and both leave out the same references
(`Addition.agrees_with_sync`), so it makes no difference when a command is sealed.
-/

namespace SlashCommands

/-- The scope a single command is created in. -/
def RegistrarCall.createScope? : RegistrarCall → Option Scope
  | create scope _ => some scope
  | _ => none

variable {η κ : Type}

/-! ## By itself -/

namespace Addition

/-- The registration with the answers that the registrar gives when it is made. -/
def runWith (a : Addition η κ) (answers : Registrar) : List Activity :=
  ({ a with registrar := answers } : Addition η κ).run

/-- The guilds that the targets mean, by the answer to the question for them. -/
def guilds (a : Addition η κ) : Except ErrorChain (List GuildContext) → List String
  | .ok listed => (a.places listed).1.toList
  | .error _ => []

/-- The targets that mean no guild, by the answer to the question for them. -/
def unknown (a : Addition η κ) : Except ErrorChain (List GuildContext) → List String
  | .ok listed => (a.places listed).2
  | .error _ => []

/-- The scopes that the command is created in, in their order. -/
def scopes (a : Addition η κ) (contexts : Except ErrorChain (List GuildContext)) : List Scope :=
  if a.targets.isEmpty then [.global] else (a.guilds contexts).map .guild

section Run

variable (a : Addition η κ) (answers : Registrar)

theorem create_requests (scope : Scope) :
    (a.create scope).filterMap Activity.call? = [.create scope a.spec.payload] := by
  rw [create]
  generalize refusal? _ = fault
  rcases fault with _ | cause <;> rfl

theorem flatMap_create_requests :
    ∀ ids : List String,
      (ids.flatMap fun id => a.create (.guild id)).filterMap Activity.call?
        = ids.map fun id => .create (.guild id) a.spec.payload
  | [] => rfl
  | id :: ids => by
    rw [List.flatMap_cons, List.filterMap_append, create_requests, flatMap_create_requests ids]
    rfl

theorem runWith_requests :
    (a.runWith answers).filterMap Activity.call?
      = if a.targets.isEmpty then [.create .global a.spec.payload]
        else .listContexts :: (a.guilds answers.contexts).map fun id =>
          .create (.guild id) a.spec.payload := by
  rw [runWith, run]
  split_ifs
  · rw [create_requests]
  rcases answers.contexts with cause | listed
  · rfl
  · dsimp only
    rw [List.cons_append, List.filterMap_cons, List.filterMap_append, flatMap_create_requests,
      Snapshot.logs_requests]
    rfl

theorem create_unknown {scope : Scope} {command : Option String} {reference : String} :
    .log (.guildUnknown command reference) ∉ a.create scope := by
  rw [create]
  rcases refusal? (a.registrar.create scope a.spec.payload) with _ | cause <;> simp

theorem unknown_of_isEmpty (h : a.targets.isEmpty = true)
    (contexts : Except ErrorChain (List GuildContext)) : a.unknown contexts = [] := by
  rcases contexts with cause | listed
  · rfl
  · rw [unknown, places, SortedSet.toList, SortedMap.isEmpty_iff.1 h]
    rfl

theorem mem_runWith_unknown {command : Option String} {reference : String} :
    .log (.guildUnknown command reference) ∈ a.runWith answers ↔
      command = some a.spec.name ∧ reference ∈ a.unknown answers.contexts := by
  rw [runWith, run]
  split_ifs with ht
  · rw [unknown_of_isEmpty a ht]
    simp [create_unknown]
  rcases answers.contexts with cause | listed
  · simp [unknown]
  · simp only [List.cons_append, List.mem_cons, reduceCtorEq, List.mem_append, List.mem_map,
      Activity.log.injEq, LogEntry.guildUnknown.injEq, List.mem_flatMap, create_unknown, and_false,
      exists_false, or_false, false_or]
    constructor
    · rintro ⟨target, hm, rfl, rfl⟩
      exact ⟨rfl, hm⟩
    · rintro ⟨rfl, hm⟩
      exact ⟨reference, hm, rfl, rfl⟩

end Run

variable {a : Addition η κ} {contexts : Except ErrorChain (List GuildContext)}

theorem mem_runWith_creates {answers : Registrar} {scope : Scope} {payload : CommandPayload} :
    .create scope payload ∈ (a.runWith answers).filterMap Activity.call? ↔
      scope ∈ a.scopes answers.contexts ∧ payload = a.spec.payload := by
  rw [runWith_requests, scopes]
  split_ifs
  · simp
  · simp only [List.mem_cons, reduceCtorEq, List.mem_map, RegistrarCall.create.injEq, false_or]
    constructor
    · rintro ⟨id, hid, rfl, rfl⟩
      exact ⟨⟨id, hid, rfl⟩, rfl⟩
    · rintro ⟨⟨id, hid, rfl⟩, rfl⟩
      exact ⟨id, hid, rfl, rfl⟩

/-- No guild is found twice, whatever the number of targets that mean it. -/
theorem runWith_createScopes_nodup (answers : Registrar) :
    (((a.runWith answers).filterMap Activity.call?).filterMap
      RegistrarCall.createScope?).Nodup := by
  rw [runWith_requests]
  split_ifs
  · exact List.nodup_singleton _
  have hids : (a.guilds answers.contexts).Nodup := by
    rcases answers.contexts with cause | listed
    · exact List.nodup_nil
    · exact (a.places listed).1.keys_nodup
  rw [List.filterMap_cons, List.filterMap_map]
  exact hids.filterMap fun id id' scope hs hs' => by
    cases hs
    cases hs'
    rfl

end Addition

/-! ## Together with others -/

namespace Snapshot

/-- One of the batches, and the request at the same place, set the payload in the scope for the
command of that name. -/
def Submits (s : Snapshot η κ) (registrar : Registrar) (scope : Scope) (name : String)
    (payload : CommandPayload) : Prop :=
  ∃ b payloads,
    (b, .set scope payloads) ∈ (s.sync registrar).2.batches.zip
      (((s.sync registrar).1.filterMap Activity.call?).filter RegistrarCall.isSet)
    ∧ (name, payload) ∈ b.commands.zip payloads

variable {s : Snapshot η κ} {registrar : Registrar} {t : Spec η κ} {scope : Scope}
  {payload : CommandPayload}

theorem commandsFor_sublist (contexts : Except ErrorChain (List GuildContext)) :
    (s.commandsFor contexts scope).Sublist s.specs := by
  rcases scope with _ | id
  · exact List.filter_sublist
  · rcases contexts with cause | listed
    · exact List.nil_sublist _
    · exact List.filter_sublist

theorem submits_iff_exists (hn : (s.specs.map (·.name)).Nodup) {name : String} :
    s.Submits registrar scope name payload ↔
      ∃ u ∈ s.commandsFor registrar.contexts scope, u.name = name ∧ u.payload = payload := by
  rw [Submits, sync_batches, sync_requests, requests_filter, List.zip_map']
  simp only [List.mem_map, Prod.mk.injEq]
  constructor
  · rintro ⟨batch, payloads, ⟨b, hb, rfl, hc⟩, hm⟩
    cases hc
    rw [Shipment.batch, List.zip_map', List.mem_map, ((mem_plan_iff hn).1 hb).1] at hm
    obtain ⟨u, hu, he⟩ := hm
    cases he
    exact ⟨u, hu, rfl, rfl⟩
  · rintro ⟨u, hu, rfl, rfl⟩
    refine ⟨_, _, ⟨⟨scope, _⟩, (mem_plan_iff hn).2 ⟨rfl, List.ne_nil_of_mem hu⟩, rfl, rfl⟩, ?_⟩
    rw [Shipment.batch, List.zip_map']
    exact List.mem_map_of_mem hu

/-- Names are distinct, so what is submitted under the name of a command is this command. -/
theorem submits_iff (hn : (s.specs.map (·.name)).Nodup) (ht : t ∈ s.specs) :
    s.Submits registrar scope t.name payload ↔
      t ∈ s.commandsFor registrar.contexts scope ∧ payload = t.payload := by
  rw [submits_iff_exists hn]
  constructor
  · rintro ⟨u, hu, hname, rfl⟩
    have hut := List.inj_on_of_nodup_map hn ((commandsFor_sublist _).subset hu) ht hname
    rw [hut] at hu ⊢
    exact ⟨hu, rfl⟩
  · rintro ⟨hu, rfl⟩
    exact ⟨t, hu, rfl, rfl⟩

theorem batch_commands_nodup (hn : (s.specs.map (·.name)).Nodup) :
    ∀ b ∈ (s.sync registrar).2.batches, b.commands.Nodup := by
  rw [sync_batches]
  intro b hb
  obtain ⟨shipment, hs, rfl⟩ := List.mem_map.1 hb
  rw [Shipment.batch, ((mem_plan_iff hn).1 hs).1]
  exact hn.sublist ((commandsFor_sublist _).map _)

theorem batch_scopes_nodup : ((s.sync registrar).2.batches.map (·.scope)).Nodup := by
  rw [sync_batches, List.map_map]
  exact plan_scopes_nodup

end Snapshot

/-! ## Both ways -/

namespace Addition

variable {a : Addition η κ} {contexts : Except ErrorChain (List GuildContext)} {s : Snapshot η κ}

/-- The registration of a command of the snapshot, with the debug guilds of the snapshot. -/
structure Parallels (a : Addition η κ) (s : Snapshot η κ) : Prop where
  mem : a.spec ∈ s.specs
  targets : a.targets = a.spec.targets s.debugGuilds

theorem Parallels.mem_targets (h : a.Parallels s) {reference : String} :
    reference ∈ a.targets.toList ↔ reference ∈ a.spec.references s.debugGuilds := by
  rw [h.targets, Spec.mem_targets]

theorem Parallels.isEmpty_iff (h : a.Parallels s) :
    a.targets.isEmpty = true ↔ a.spec.references s.debugGuilds = [] := by
  rw [h.targets, Spec.targets_isEmpty_iff]

theorem Parallels.mem_guilds_iff (h : a.Parallels s) {id : String} :
    id ∈ a.guilds contexts ↔ a.spec ∈ s.commandsFor contexts (.guild id) := by
  rw [Snapshot.mem_commandsFor_guild, and_iff_right h.mem]
  rcases contexts with cause | listed
  · simp [guilds]
  · rw [guilds, mem_places_fst]
    simp only [h.mem_targets, Except.ok.injEq, exists_eq_left']

theorem Parallels.mem_scopes_iff (h : a.Parallels s) {scope : Scope} :
    scope ∈ a.scopes contexts ↔ a.spec ∈ s.commandsFor contexts scope := by
  rw [scopes]
  split_ifs with he
  · rw [h.isEmpty_iff] at he
    rcases scope with _ | id
    · simp [Snapshot.mem_commandsFor_global, h.mem, he]
    · simp [Snapshot.mem_commandsFor_guild, he]
  · rw [h.isEmpty_iff] at he
    rcases scope with _ | id
    · simp [Snapshot.mem_commandsFor_global, he]
    · rw [← h.mem_guilds_iff]
      simp

theorem Parallels.mem_unknown_iff (h : a.Parallels s) {registrar : Registrar} {reference : String} :
    reference ∈ a.unknown registrar.contexts ↔
      reference ∈ (s.sync registrar).2.unknownGuilds
        ∧ reference ∈ a.spec.references s.debugGuilds := by
  rw [Snapshot.sync_reported.unknown]
  rcases registrar.contexts with cause | listed
  · simp [unknown]
  · rw [unknown, mem_places_snd, h.mem_targets, findGuild_eq_none_iff]
    simp only [Except.ok.injEq, exists_eq_left']
    constructor
    · rintro ⟨hr, hnone⟩
      exact ⟨⟨⟨a.spec, h.mem, hr⟩, hnone⟩, hr⟩
    · rintro ⟨⟨-, hnone⟩, hr⟩
      exact ⟨hr, hnone⟩

theorem parallels_of_addition? {r : Registry η κ} {t : Spec η κ} (ha : r.addition? t = some a)
    (ht : t ∈ s.specs) (hd : r.debugGuilds = s.debugGuilds) : a.spec = t ∧ a.Parallels s := by
  rw [Registry.addition?] at ha
  split at ha
  · cases ha
    exact ⟨rfl, ht, congrArg t.targets hd⟩
  · cases ha

/-- A command of the first phase, registered by itself instead, with the same debug guilds and the
same guilds listed: it is created in exactly the scopes that the first phase sets it in, once in
each and with the same payload, and the references that are warned of are its own among those that
the first phase reports. -/
theorem agrees_with_sync (s : Snapshot η κ) (hn : (s.specs.map (·.name)).Nodup) {t : Spec η κ}
    (ht : t ∈ s.specs) {r : Registry η κ} (hd : r.debugGuilds = s.debugGuilds)
    {a : Addition η κ} (ha : r.addition? t = some a) {registrar answers : Registrar}
    (hc : answers.contexts = registrar.contexts) :
    (∀ scope payload,
      .create scope payload ∈ (a.runWith answers).filterMap Activity.call?
        ↔ s.Submits registrar scope t.name payload)
      ∧ (((a.runWith answers).filterMap Activity.call?).filterMap RegistrarCall.createScope?).Nodup
      ∧ ((s.sync registrar).2.batches.map (·.scope)).Nodup
      ∧ (∀ b ∈ (s.sync registrar).2.batches, b.commands.Nodup)
      ∧ ∀ reference,
        .log (.guildUnknown (some t.name) reference) ∈ a.runWith answers
          ↔ reference ∈ (s.sync registrar).2.unknownGuilds
            ∧ reference ∈ t.references s.debugGuilds := by
  obtain ⟨rfl, hp⟩ := parallels_of_addition? ha ht hd
  refine ⟨fun scope payload => ?_, runWith_createScopes_nodup answers,
    Snapshot.batch_scopes_nodup, Snapshot.batch_commands_nodup hn, fun reference => ?_⟩
  · rw [mem_runWith_creates, hp.mem_scopes_iff, hc, Snapshot.submits_iff hn ht]
  · rw [mem_runWith_unknown, hc, hp.mem_unknown_iff, and_iff_right rfl]

/-- Each of the three commands goes to the first guild as well. -/
def debuggedCommands : Snapshot Unit Unit :=
  { Snapshot.threeCommands with debugGuilds := .ofList ["Lab"] }

/-- A registry with this debug guild, after its first phase. -/
def readyRegistry : Registry Unit Unit :=
  { Registry.empty with
    state := .ready
    debugGuilds := .ofList ["Lab"]
    registrar := some Snapshot.twoGuilds
    runtime := some 0 }

theorem lastCommand_agrees_with_sync :
    ∃ t ∈ debuggedCommands.specs, ∃ a, readyRegistry.addition? t = some a ∧ t.name = "hero"
      ∧ (∀ scope payload,
        .create scope payload ∈ (a.runWith Snapshot.twoGuilds).filterMap Activity.call?
          ↔ debuggedCommands.Submits Snapshot.twoGuilds scope "hero" payload)
      ∧ ∀ reference,
        .log (.guildUnknown (some "hero") reference) ∈ a.runWith Snapshot.twoGuilds
          ↔ reference ∈ (debuggedCommands.sync Snapshot.twoGuilds).2.unknownGuilds
            ∧ reference ∈ t.references debuggedCommands.debugGuilds := by
  have hn : (debuggedCommands.specs.map (·.name)).Nodup := by decide
  have ht : debuggedCommands.specs[2] ∈ debuggedCommands.specs := List.getElem_mem _
  obtain ⟨hcreate, -, -, -, hunknown⟩ :=
    agrees_with_sync debuggedCommands hn ht (r := readyRegistry) rfl (a := ⟨_, _, _, _⟩) rfl
      (show Snapshot.twoGuilds.contexts = Snapshot.twoGuilds.contexts from rfl)
  exact ⟨_, ht, _, rfl, rfl, hcreate, hunknown⟩

end Addition

end SlashCommands
