import SlashCommands.Proofs.Placement
import SlashCommands.Proofs.SyncCalls

/-!
# The plan of the first phase

What the first phase asks for is settled by the listed guilds alone: a plan of shipments, each a
scope with the commands that are set there (`Snapshot.plan`). The requests are those of the plan
(`Snapshot.sync_requests`), and so are the batches of the report, each with the answer to its own
request (`Snapshot.sync_batches`). The plan has one shipment for each scope that commands belong to
(`Snapshot.mem_plan_iff`, `Snapshot.plan_scopes_nodup`).
-/

namespace SlashCommands

/-- Commands that are set together in one scope. -/
structure Shipment (η κ : Type) where
  scope : Scope
  specs : List (Spec η κ)

/-- Whether commands are set. -/
def RegistrarCall.isSet : RegistrarCall → Bool
  | set .. => true
  | _ => false

variable {η κ : Type}

namespace Shipment

/-- The request of a shipment. -/
def call (b : Shipment η κ) : RegistrarCall :=
  .set b.scope (b.specs.map (·.payload))

/-- The answer to that request. -/
def answer (registrar : Registrar) (b : Shipment η κ) : Except ErrorChain Unit :=
  registrar.set b.scope (b.specs.map (·.payload))

/-- What is reported of the shipment. -/
def batch (registrar : Registrar) (b : Shipment η κ) : SyncBatch :=
  ⟨b.scope, b.specs.map (·.name), refusal? (b.answer registrar)⟩

end Shipment

theorem refusal?_eq_none_iff {answer : Except ErrorChain Unit} :
    refusal? answer = none ↔ answer = .ok () := by
  rcases answer with cause | _ <;> simp [refusal?]

namespace Snapshot

/-- The commands that belong to a scope: those with a reference that means the guild or, globally,
those without any reference. -/
def commandsFor (s : Snapshot η κ) (contexts : Except ErrorChain (List GuildContext)) :
    Scope → List (Spec η κ)
  | .global => s.specs.filter fun t => (t.references s.debugGuilds).isEmpty
  | .guild id =>
    match contexts with
    | .ok listed => s.specs.filter (·.goesTo listed s.debugGuilds id)
    | .error _ => []

/-- The shipment of the commands that go everywhere, if there are any. -/
def globalPlan (s : Snapshot η κ) : List (Shipment η κ) :=
  if s.globalSpecs.isEmpty then [] else [⟨.global, s.globalSpecs⟩]

/-- The shipments to guilds, by the answer to the question for them. -/
def guildPlan (s : Snapshot η κ) :
    Except ErrorChain (List GuildContext) → List (Shipment η κ)
  | .ok listed =>
    (Placement.ofSpecs listed s.debugGuilds s.guildSpecs).guilds.entries.map fun e =>
      ⟨.guild e.1, e.2⟩
  | .error _ => []

/-- The shipments in the order of their requests. -/
def plan (s : Snapshot η κ) (contexts : Except ErrorChain (List GuildContext)) :
    List (Shipment η κ) :=
  s.globalPlan ++ s.guildPlan contexts

/-- All requests. The guilds are listed only if some command has a reference. -/
def requests (s : Snapshot η κ) (contexts : Except ErrorChain (List GuildContext)) :
    List RegistrarCall :=
  s.globalPlan.map Shipment.call ++
    if s.guildSpecs.isEmpty then []
    else .listContexts :: (s.guildPlan contexts).map Shipment.call

/-! ## What is asked and what is reported -/

section Sync

variable (s : Snapshot η κ) (registrar : Registrar)

theorem submit_requests (b : Shipment η κ) :
    (submit registrar b.scope b.specs).1.filterMap Activity.call? = [b.call] := by
  simp only [submit]
  generalize refusal? _ = fault
  rcases fault with _ | cause <;> rfl

theorem flatMap_submit_requests :
    ∀ plan : List (Shipment η κ),
      (plan.flatMap fun b => (submit registrar b.scope b.specs).1).filterMap Activity.call?
        = plan.map Shipment.call
  | [] => rfl
  | b :: plan => by
    rw [List.flatMap_cons, List.filterMap_append, submit_requests, flatMap_submit_requests plan]
    rfl

theorem logs_requests {α : Type} (f : α → LogEntry) (xs : List α) :
    (xs.map fun x => Activity.log (f x)).filterMap Activity.call? = [] := by
  simp [Activity.call?]

theorem syncGlobal_eq :
    s.syncGlobal registrar = s.globalPlan.map fun b => submit registrar b.scope b.specs := by
  rw [syncGlobal, globalPlan]
  split_ifs <;> rfl

theorem guildPlan_of_isEmpty (h : s.guildSpecs.isEmpty = true)
    (contexts : Except ErrorChain (List GuildContext)) : s.guildPlan contexts = [] := by
  rcases contexts with cause | listed
  · rfl
  · rw [guildPlan, List.isEmpty_iff.1 h]
    rfl

theorem syncGuilds_requests :
    (s.syncGuilds registrar).1.filterMap Activity.call?
      = if s.guildSpecs.isEmpty then []
        else .listContexts :: (s.guildPlan registrar.contexts).map Shipment.call := by
  rw [syncGuilds]
  split_ifs
  · rfl
  rcases registrar.contexts with cause | listed
  · rfl
  · dsimp only
    rw [List.cons_append, List.filterMap_cons, List.filterMap_append, logs_requests,
      List.nil_append, ← flatMap_submit_requests registrar (s.guildPlan (.ok listed)), guildPlan,
      List.flatMap_map, List.flatMap_map]
    rfl

theorem syncGuilds_batches :
    (s.syncGuilds registrar).2.batches
      = (s.guildPlan registrar.contexts).map (Shipment.batch registrar) := by
  rw [syncGuilds]
  split_ifs with hg
  · rw [guildPlan_of_isEmpty s hg]
    rfl
  rcases registrar.contexts with cause | listed
  · rfl
  · dsimp only
    rw [guildPlan, List.map_map, List.map_map]
    rfl

theorem sync_requests :
    (s.sync registrar).1.filterMap Activity.call? = s.requests registrar.contexts := by
  rw [sync, requests, List.filterMap_append, syncGlobal_eq, List.flatMap_map,
    flatMap_submit_requests, syncGuilds_requests]

theorem sync_batches :
    (s.sync registrar).2.batches = (s.plan registrar.contexts).map (Shipment.batch registrar) := by
  rw [plan, List.map_append, ← syncGuilds_batches, sync, syncGlobal_eq, List.map_map]
  rfl

theorem filter_isSet (plan : List (Shipment η κ)) :
    (plan.map Shipment.call).filter RegistrarCall.isSet = plan.map Shipment.call := by
  rw [List.filter_eq_self]
  intro c hc
  obtain ⟨b, -, rfl⟩ := List.mem_map.1 hc
  rfl

theorem requests_filter (contexts : Except ErrorChain (List GuildContext)) :
    (s.requests contexts).filter RegistrarCall.isSet = (s.plan contexts).map Shipment.call := by
  rw [requests, List.filter_append, filter_isSet, plan, List.map_append]
  congr 1
  split_ifs with hg
  · rw [guildPlan_of_isEmpty s hg]
    rfl
  · exact filter_isSet _

end Sync

/-! ## What is planned -/

section Plan

variable {s : Snapshot η κ} {contexts : Except ErrorChain (List GuildContext)}

theorem mem_commandsFor_global {t : Spec η κ} :
    t ∈ s.commandsFor contexts .global ↔ t ∈ s.specs ∧ t.references s.debugGuilds = [] := by
  rw [commandsFor, List.mem_filter, List.isEmpty_iff]

theorem mem_commandsFor_guild {t : Spec η κ} {id : String} :
    t ∈ s.commandsFor contexts (.guild id) ↔ t ∈ s.specs ∧ ∃ listed, contexts = .ok listed
      ∧ ∃ reference ∈ t.references s.debugGuilds, findGuild listed reference = some id := by
  rcases contexts with cause | listed
  · simp [commandsFor]
  · rw [commandsFor, List.mem_filter, Spec.goesTo_iff]
    simp only [Except.ok.injEq, exists_eq_left']

theorem globalSpecs_eq : s.globalSpecs = s.commandsFor contexts .global := by
  rw [globalSpecs, commandsFor]
  refine List.filter_congr fun t _ => ?_
  rw [Bool.eq_iff_iff, Spec.targets_isEmpty_iff, List.isEmpty_iff]

theorem mem_guildSpecs {t : Spec η κ} :
    t ∈ s.guildSpecs ↔ t ∈ s.specs ∧ t.references s.debugGuilds ≠ [] := by
  rw [guildSpecs, List.mem_filter, Bool.not_eq_true', ← Bool.not_eq_true, ne_eq,
    Spec.targets_isEmpty_iff]

/-- Leaving out the commands without a reference leaves out none that goes to a guild. -/
theorem guildSpecs_filter (listed : List GuildContext) (id : String) :
    s.guildSpecs.filter (·.goesTo listed s.debugGuilds id)
      = s.commandsFor (.ok listed) (.guild id) := by
  rw [guildSpecs, List.filter_filter, commandsFor]
  refine List.filter_congr fun t _ => ?_
  rw [Bool.and_eq_left_iff_imp, Spec.goesTo_iff, Bool.not_eq_true', ← Bool.not_eq_true,
    Spec.targets_isEmpty_iff]
  rintro ⟨reference, hr, -⟩
  exact List.ne_nil_of_mem hr

theorem guildSpecs_nodup (hn : (s.specs.map (·.name)).Nodup) :
    (s.guildSpecs.map (·.name)).Nodup :=
  hn.sublist (List.filter_sublist.map _)

variable (contexts) in
theorem mem_globalPlan_iff {b : Shipment η κ} :
    b ∈ s.globalPlan ↔
      b.scope = .global ∧ b.specs = s.commandsFor contexts .global ∧ b.specs ≠ [] := by
  rcases b with ⟨scope, specs⟩
  rw [globalPlan, globalSpecs_eq]
  split_ifs with h
  · rw [List.isEmpty_iff] at h
    simp only [List.not_mem_nil, false_iff]
    rintro ⟨-, rfl, hne⟩
    exact hne h
  · rw [List.isEmpty_iff] at h
    simp only [List.mem_singleton, Shipment.mk.injEq]
    refine and_congr_right fun _ => ⟨fun he => ⟨he, he ▸ h⟩, fun he => he.1⟩

theorem mem_guildPlan_iff (hn : (s.specs.map (·.name)).Nodup) {b : Shipment η κ} :
    b ∈ s.guildPlan contexts ↔ ∃ id, b.scope = .guild id
      ∧ b.specs = s.commandsFor contexts (.guild id) ∧ b.specs ≠ [] := by
  rcases contexts with cause | listed
  · simp only [guildPlan, commandsFor, List.not_mem_nil, false_iff]
    rintro ⟨id, -, he, hne⟩
    exact hne he
  have hn' := guildSpecs_nodup hn
  rw [guildPlan, Placement.entries_ofSpecs hn', List.map_map]
  simp only [List.mem_map, Placement.mem_keys_ofSpecs hn', Function.comp_apply, guildSpecs_filter]
  constructor
  · rintro ⟨id, hne, rfl⟩
    exact ⟨id, rfl, rfl, hne⟩
  · rintro ⟨id, hs, he, hne⟩
    rcases b with ⟨scope, specs⟩
    exact ⟨id, he ▸ hne, by rw [← he, ← hs]⟩

/-- Each scope that commands belong to has its shipment, with exactly these commands. -/
theorem mem_plan_iff (hn : (s.specs.map (·.name)).Nodup) {b : Shipment η κ} :
    b ∈ s.plan contexts ↔ b.specs = s.commandsFor contexts b.scope ∧ b.specs ≠ [] := by
  rw [plan, List.mem_append, mem_globalPlan_iff contexts, mem_guildPlan_iff hn]
  rcases hb : b.scope with _ | id
  · simp
  · simp

theorem filterMap_setScope? :
    ∀ plan : List (Shipment η κ),
      (plan.map Shipment.call).filterMap RegistrarCall.setScope? = plan.map Shipment.scope
  | [] => rfl
  | b :: plan => congrArg (b.scope :: ·) (filterMap_setScope? plan)

theorem requests_setScopes :
    (s.requests contexts).filterMap RegistrarCall.setScope?
      = (s.plan contexts).map Shipment.scope := by
  rw [requests, List.filterMap_append, filterMap_setScope?, plan, List.map_append]
  congr 1
  split_ifs with hg
  · rw [guildPlan_of_isEmpty s hg]
    rfl
  · exact filterMap_setScope? _

/-- No scope is planned twice, since none is ever set twice. -/
theorem plan_scopes_nodup : ((s.plan contexts).map Shipment.scope).Nodup := by
  have h := s.sync_setScopes_nodup ⟨contexts, fun _ _ => .ok (), fun _ _ => .ok ()⟩
  rw [setScopes, show Activity.setScope? = fun a => a.call?.bind RegistrarCall.setScope? from rfl,
    ← List.filterMap_filterMap, sync_requests, requests_setScopes] at h
  exact h

end Plan

end Snapshot

end SlashCommands
