import SlashCommands.Draft
import SlashCommands.Proofs.Startup

/-!
# Registration of every command

Whatever the order of the moves, no command is lost and none is registered twice: once a registry is
settled, each command was in the one snapshot or was added by itself, and never both
(`Startup.handed_once`). No scope is set twice, and no command that was created is wiped out by a
scope set later (`Startup.sets_before_creates`).
-/

namespace SlashCommands

namespace Startup

variable {η κ : Type}

theorem Ready.perm {t : Startup η κ} (h : t.Ready []) (hs : t.Settled) :
    ∃ snapshot, t.snapshots = [snapshot]
      ∧ (snapshot.specs ++ t.added).Perm t.registry.specs := by
  obtain ⟨snapshot, hsn, hperm⟩ := h.handed
  refine ⟨snapshot, hsn, ?_⟩
  rw [hs.sealing, List.flatten_eq_nil_iff.2 hs.releasing] at hperm
  simpa using hperm

/-- After any moves: no single registration was given up, and once the registry is settled, each
command was handed over exactly once, in the snapshot or by itself. -/
theorem handed_once (ms : List (Move η κ)) :
    (run ms).dropped = []
      ∧ ((run ms).Settled → ∃ snapshot, (run ms).snapshots = [snapshot]
        ∧ (snapshot.specs ++ (run ms).added).Perm (run ms).registry.specs
        ∧ ∀ s ∈ (run ms).registry.specs,
          (snapshot.specs.map (·.name)).count s.name
            + ((run ms).added.map (·.name)).count s.name = 1) := by
  have h := run_sound ms
  refine ⟨h.dropped, fun hs => ?_⟩
  obtain ⟨snapshot, hsn, hperm⟩ := (h.ready_of_state hs.state).perm hs
  refine ⟨snapshot, hsn, hperm, fun s hm => ?_⟩
  have hc := (hperm.map (·.name)).count_eq s.name
  rw [List.map_append, List.count_append] at hc
  rw [hc]
  exact List.count_eq_one_of_mem h.indexed.nodup (List.mem_map_of_mem hm)

/-- One command is sealed before the others are registered, one meanwhile and one afterwards. -/
def threeSeals : List (Move Unit Unit) :=
  let registrar : Registrar := ⟨.ok [], fun _ _ => .ok (), fun _ _ => .ok ()⟩
  let bare name := (Draft.new name "" : Draft Unit).toSpec [] (.single ())
  [.add (bare "ping"), .begin registrar (some 0), .add (bare "team"), .request 0, .complete 0,
    .add (bare "hero"), .release 0 registrar, .handOver 0 registrar]

theorem threeSeals_handed_once :
    (run threeSeals).Settled ∧ ∃ snapshot, (run threeSeals).snapshots = [snapshot]
      ∧ (snapshot.specs ++ (run threeSeals).added).Perm (run threeSeals).registry.specs := by
  have hr : (run threeSeals).releasing.all List.isEmpty = true := by decide +kernel
  have hs : (run threeSeals).Settled :=
    { state := by decide +kernel
      sealing := List.isEmpty_iff.1 (by decide +kernel)
      releasing := fun specs h => List.isEmpty_iff.1 (List.all_eq_true.1 hr specs h) }
  obtain ⟨snapshot, hsn, hperm, -⟩ := (handed_once threeSeals).2 hs
  exact ⟨hs, snapshot, hsn, hperm⟩

theorem Sound.distinct {t : Startup η κ} (h : t.Sound) : (setScopes t.trace).Nodup := by
  rcases h.phase with hp | hp | hp
  · rw [hp.trace]
    exact List.nodup_nil
  · obtain ⟨rest, -, hd, -⟩ := hp.rest
    rw [setScopes_append] at hd
    exact hd.of_append_left
  · exact hp.distinct

theorem Sound.ordered {t : Startup η κ} (h : t.Sound) :
    t.trace.Pairwise fun a b => a.isCreate = true → b.setScope? = none := by
  rcases h.phase with hp | hp | hp
  · rw [hp.trace]
    exact .nil
  · obtain ⟨rest, -, -, hc⟩ := hp.rest
    refine List.pairwise_of_forall_mem_list fun a ha b _ hcr => ?_
    rw [hc a (List.mem_append_left _ ha)] at hcr
    cases hcr
  · exact hp.ordered

/-- After any moves: no scope was set twice, and nothing was set after something was created. -/
theorem sets_before_creates (ms : List (Move η κ)) :
    ((run ms).calls.filterMap RegistrarCall.setScope?).Nodup
      ∧ (run ms).calls.Pairwise fun earlier later =>
        earlier.isCreate = true → later.setScope? = none := by
  have h := run_sound ms
  rw [calls]
  refine ⟨?_, ?_⟩
  · rw [List.filterMap_filterMap]
    exact h.distinct
  · refine List.pairwise_filterMap.2 (h.ordered.imp fun {a b} hab c hc d hd => ?_)
    simpa [Activity.isCreate, Activity.setScope?, hc, hd] using hab

end Startup

end SlashCommands
