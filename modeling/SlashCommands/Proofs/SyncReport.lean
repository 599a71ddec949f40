import SlashCommands.Draft
import SlashCommands.Proofs.SyncPlan

/-!
# The report of the first phase

The first phase registers each command in exactly the places it belongs to, and its report tells
what became of that: the batches are the answered requests, the unknown guilds are the references
that mean no guild (`Snapshot.sync_reported`). Therefore a report is clean exactly if every command
was accepted wherever it belongs (`Snapshot.sync_isClean_iff`); all of it in one statement is
`Snapshot.sync_covers`.
-/

namespace SlashCommands

variable {η κ : Type}

namespace Snapshot

/-- What a report says of the references of the commands. -/
structure Reported (s : Snapshot η κ) (contexts : Except ErrorChain (List GuildContext))
    (report : SyncReport) : Prop where
  sorted : report.unknownGuilds.Pairwise (· < ·)
  /-- Exactly the references that no listed guild matches. -/
  unknown : ∀ reference, reference ∈ report.unknownGuilds ↔
    (∃ t ∈ s.specs, reference ∈ t.references s.debugGuilds)
      ∧ ∃ listed, contexts = .ok listed ∧ ∀ c ∈ listed, c.isMeant reference = false
  /-- The guilds were to be listed, and could not be. -/
  fault : ∀ cause, report.contextFault = some cause ↔
    contexts = .error cause ∧ ∃ t ∈ s.specs, t.references s.debugGuilds ≠ []

/-- The command is part of a shipment to the scope, and that shipment was accepted. -/
def AcceptedIn (plan : List (Shipment η κ)) (registrar : Registrar) (t : Spec η κ)
    (scope : Scope) : Prop :=
  ∃ b ∈ plan, b.scope = scope ∧ t ∈ b.specs ∧ b.answer registrar = .ok ()

/-- The command was accepted in the guild of each of its references or, without any, globally. -/
def Accepted (s : Snapshot η κ) (plan : List (Shipment η κ)) (registrar : Registrar)
    (t : Spec η κ) : Prop :=
  (t.references s.debugGuilds = [] → AcceptedIn plan registrar t .global)
    ∧ ∀ reference ∈ t.references s.debugGuilds, ∃ listed id, registrar.contexts = .ok listed
      ∧ findGuild listed reference = some id ∧ AcceptedIn plan registrar t (.guild id)

variable {s : Snapshot η κ} {registrar : Registrar}

/-! ## What is told -/

theorem sync_unknownGuilds :
    (s.sync registrar).2.unknownGuilds
      = match registrar.contexts with
        | .ok listed => (Placement.ofSpecs listed s.debugGuilds s.guildSpecs).unknown.toList
        | .error _ => [] := by
  change (s.syncGuilds registrar).2.unknownGuilds = _
  rw [syncGuilds]
  split_ifs with hg
  · rw [List.isEmpty_iff.1 hg]
    rcases registrar.contexts with cause | listed <;> rfl
  · rcases registrar.contexts with cause | listed <;> rfl

theorem guildSpecs_ne_nil_iff :
    s.guildSpecs ≠ [] ↔ ∃ t ∈ s.specs, t.references s.debugGuilds ≠ [] := by
  constructor
  · intro h
    obtain ⟨t, ht⟩ := List.exists_mem_of_ne_nil _ h
    exact ⟨t, mem_guildSpecs.1 ht⟩
  · rintro ⟨t, ht⟩
    exact List.ne_nil_of_mem (mem_guildSpecs.2 ht)

theorem sync_contextFault {cause : ErrorChain} :
    (s.sync registrar).2.contextFault = some cause ↔
      registrar.contexts = .error cause ∧ s.guildSpecs ≠ [] := by
  change (s.syncGuilds registrar).2.contextFault = _ ↔ _
  rw [syncGuilds]
  split_ifs with hg
  · simp [List.isEmpty_iff.1 hg]
  · rw [List.isEmpty_iff] at hg
    rcases registrar.contexts with cause' | listed <;> simp [hg]

theorem mem_unknown_guildSpecs {listed : List GuildContext} {reference : String} :
    reference ∈ (Placement.ofSpecs listed s.debugGuilds s.guildSpecs).unknown.toList ↔
      (∃ t ∈ s.specs, reference ∈ t.references s.debugGuilds)
        ∧ ∀ c ∈ listed, c.isMeant reference = false := by
  rw [Placement.mem_unknown_ofSpecs, findGuild_eq_none_iff]
  refine and_congr_left fun _ => ⟨?_, ?_⟩
  · rintro ⟨t, ht, hr⟩
    exact ⟨t, (mem_guildSpecs.1 ht).1, hr⟩
  · rintro ⟨t, ht, hr⟩
    exact ⟨t, mem_guildSpecs.2 ⟨ht, List.ne_nil_of_mem hr⟩, hr⟩

theorem sync_reported : s.Reported registrar.contexts (s.sync registrar).2 where
  sorted := by
    rw [sync_unknownGuilds]
    rcases registrar.contexts with cause | listed
    · exact .nil
    · exact (SortedMap.keys_sorted _).imp fun h => compareOfLessAndEq_eq_lt.1 h
  unknown reference := by
    rw [sync_unknownGuilds]
    rcases registrar.contexts with cause | listed
    · simp
    · simp only [mem_unknown_guildSpecs, Except.ok.injEq, exists_eq_left']
  fault cause := by rw [sync_contextFault, guildSpecs_ne_nil_iff]

/-! ## What makes a report clean -/

theorem sync_isClean_eq :
    (s.sync registrar).2.isClean = true ↔
      (∀ b ∈ s.plan registrar.contexts, b.answer registrar = .ok ())
        ∧ (s.sync registrar).2.unknownGuilds = [] ∧ (s.sync registrar).2.contextFault = none := by
  rw [SyncReport.isClean, SyncReport.failed, sync_batches]
  simp [Shipment.batch, refusal?_eq_none_iff, and_assoc]

theorem acceptedIn_iff (hn : (s.specs.map (·.name)).Nodup) {t : Spec η κ} {scope : Scope} :
    AcceptedIn (s.plan registrar.contexts) registrar t scope ↔
      t ∈ s.commandsFor registrar.contexts scope
        ∧ (Shipment.mk scope (s.commandsFor registrar.contexts scope)).answer registrar
          = .ok () := by
  constructor
  · rintro ⟨⟨scope', specs⟩, hb, rfl, ht, ha⟩
    obtain ⟨he, -⟩ := (mem_plan_iff hn).1 hb
    dsimp only at he ht ⊢
    rw [← he]
    exact ⟨ht, ha⟩
  · rintro ⟨ht, ha⟩
    exact ⟨_, (mem_plan_iff hn).2 ⟨rfl, List.ne_nil_of_mem ht⟩, rfl, ht, ha⟩

/-- With every shipment accepted, a command was accepted wherever it belongs. -/
theorem accepted_of_plan (hn : (s.specs.map (·.name)).Nodup)
    (hplan : ∀ b ∈ s.plan registrar.contexts, b.answer registrar = .ok ()) {t : Spec η κ}
    {scope : Scope} (ht : t ∈ s.commandsFor registrar.contexts scope) :
    AcceptedIn (s.plan registrar.contexts) registrar t scope :=
  (acceptedIn_iff hn).2
    ⟨ht, hplan _ ((mem_plan_iff hn).2 ⟨rfl, List.ne_nil_of_mem ht⟩)⟩

/-- Every shipment has a command, and was accepted if that command was accepted wherever it
belongs. -/
theorem answer_of_accepted (hn : (s.specs.map (·.name)).Nodup)
    (h : ∀ t ∈ s.specs, s.Accepted (s.plan registrar.contexts) registrar t)
    {b : Shipment η κ} (hb : b ∈ s.plan registrar.contexts) : b.answer registrar = .ok () := by
  rcases b with ⟨scope, specs⟩
  obtain ⟨he, hne⟩ := (mem_plan_iff hn).1 hb
  dsimp only at he hne
  obtain ⟨t, ht⟩ := List.exists_mem_of_ne_nil _ hne
  rw [he] at ht ⊢
  rcases scope with _ | id
  · obtain ⟨hts, hr⟩ := mem_commandsFor_global.1 ht
    exact ((acceptedIn_iff hn).1 ((h t hts).1 hr)).2
  · obtain ⟨hts, listed, hl, reference, hr, hf⟩ := mem_commandsFor_guild.1 ht
    obtain ⟨listed', id', hl', hf', hacc⟩ := (h t hts).2 reference hr
    cases hl.symm.trans hl'
    cases hf.symm.trans hf'
    exact ((acceptedIn_iff hn).1 hacc).2

theorem sync_isClean_iff (hn : (s.specs.map (·.name)).Nodup) :
    (s.sync registrar).2.isClean = true ↔
      ∀ t ∈ s.specs, s.Accepted (s.plan registrar.contexts) registrar t := by
  have hreport : s.Reported registrar.contexts (s.sync registrar).2 := sync_reported
  rw [sync_isClean_eq]
  constructor
  · rintro ⟨hplan, hunknown, hfault⟩ t ht
    refine ⟨fun hr => accepted_of_plan hn hplan (mem_commandsFor_global.2 ⟨ht, hr⟩),
      fun reference hr => ?_⟩
    rcases hc : registrar.contexts with cause | listed
    · rw [(hreport.fault cause).2 ⟨hc, t, ht, List.ne_nil_of_mem hr⟩] at hfault
      cases hfault
    · rcases hf : findGuild listed reference with _ | id
      · have hm := (hreport.unknown reference).2
          ⟨⟨t, ht, hr⟩, listed, hc, findGuild_eq_none_iff.1 hf⟩
        rw [hunknown] at hm
        cases hm
      · have hm : t ∈ s.commandsFor registrar.contexts (.guild id) :=
          mem_commandsFor_guild.2 ⟨ht, listed, hc, reference, hr, hf⟩
        exact ⟨listed, id, rfl, hf, hc ▸ accepted_of_plan hn hplan hm⟩
  · intro h
    refine ⟨fun b hb => answer_of_accepted hn h hb, ?_, ?_⟩
    · rw [List.eq_nil_iff_forall_not_mem]
      intro reference hm
      obtain ⟨⟨t, ht, hr⟩, listed, hc, hnone⟩ := (hreport.unknown reference).1 hm
      obtain ⟨listed', id, hc', hf, -⟩ := (h t ht).2 reference hr
      cases hc.symm.trans hc'
      rw [findGuild_eq_none_iff.2 hnone] at hf
      cases hf
    · rw [Option.eq_none_iff_forall_ne_some]
      intro cause hcause
      obtain ⟨hc, t, ht, hr⟩ := (hreport.fault cause).1 hcause
      obtain ⟨reference, hr⟩ := List.exists_mem_of_ne_nil _ hr
      obtain ⟨listed, id, hc', -⟩ := (h t ht).2 reference hr
      cases hc.symm.trans hc'

/-- For commands of distinct names there is a plan that depends on the listed guilds alone. Each
scope has at most one shipment in it, with exactly the commands that belong there, in their order.
Whatever the answers of the registrar are, what is set are these shipments, and the batches of the
report are these shipments with their answers; the report is clean exactly if every command was
accepted wherever it belongs. -/
theorem sync_covers (s : Snapshot η κ) (hn : (s.specs.map (·.name)).Nodup)
    (contexts : Except ErrorChain (List GuildContext)) :
    ∃ (requests : List RegistrarCall) (plan : List (Shipment η κ)),
      requests.filter RegistrarCall.isSet = plan.map Shipment.call
        ∧ (plan.map Shipment.scope).Nodup
        ∧ (∀ b, b ∈ plan ↔ b.specs = s.commandsFor contexts b.scope ∧ b.specs ≠ [])
        ∧ ∀ registrar : Registrar, registrar.contexts = contexts →
          (s.sync registrar).1.filterMap Activity.call? = requests
            ∧ (s.sync registrar).2.batches = plan.map (Shipment.batch registrar)
            ∧ s.Reported contexts (s.sync registrar).2
            ∧ ((s.sync registrar).2.isClean = true ↔
              ∀ t ∈ s.specs, s.Accepted plan registrar t) := by
  refine ⟨s.requests contexts, s.plan contexts, s.requests_filter contexts, plan_scopes_nodup,
    fun b => mem_plan_iff hn, ?_⟩
  rintro registrar rfl
  exact ⟨s.sync_requests registrar, s.sync_batches registrar, sync_reported,
    sync_isClean_iff hn⟩

/-- A command for everyone, one with two references to one guild, and one that is not known
everywhere. -/
def threeCommands : Snapshot Unit Unit :=
  let bare name guilds : Spec Unit Unit :=
    { (Draft.new name "" : Draft Unit).toSpec [] (.single ()) with guilds := .ofList guilds }
  ⟨[bare "ping" [], bare "team" ["1", "Lab"], bare "hero" ["2", "Nowhere"]], .empty⟩

/-- The second guild has the id of the first one for its name, and takes no commands. -/
def twoGuilds : Registrar where
  contexts := .ok [⟨"1", "Lab"⟩, ⟨"2", "1"⟩]
  set scope _ := if scope = .guild "2" then .error (.ofText "rejected") else .ok ()
  create _ _ := .ok ()

theorem threeCommands_sync_covers :
    (threeCommands.specs.map (·.name)).Nodup
      ∧ (threeCommands.sync twoGuilds).2.isClean = false
      ∧ ∃ plan : List (Shipment Unit Unit),
        (∀ b, b ∈ plan ↔
          b.specs = threeCommands.commandsFor twoGuilds.contexts b.scope ∧ b.specs ≠ [])
        ∧ (threeCommands.sync twoGuilds).2.batches = plan.map (Shipment.batch twoGuilds)
        ∧ threeCommands.Reported twoGuilds.contexts (threeCommands.sync twoGuilds).2
        ∧ ((threeCommands.sync twoGuilds).2.isClean = true ↔
          ∀ t ∈ threeCommands.specs, threeCommands.Accepted plan twoGuilds t) := by
  have hn : (threeCommands.specs.map (·.name)).Nodup := by decide
  obtain ⟨requests, plan, -, -, hplan, hsync⟩ := sync_covers threeCommands hn twoGuilds.contexts
  obtain ⟨-, hbatches, hreported, hclean⟩ := hsync twoGuilds rfl
  exact ⟨hn, by decide +kernel, plan, hplan, hbatches, hreported, hclean⟩

end Snapshot

end SlashCommands
