import SlashCommands.Proofs.SortedEntries
import SlashCommands.Registry.Sync

/-!
# What registrations ask for

The first phase sets each scope at most once, however guilds are referred to, since the commands are
gathered by the id of the guild (`Snapshot.sync_setScopes_nodup`), and it creates nothing
(`Snapshot.sync_isCreate`). A single registration only creates (`Addition.run_setScope?`).
-/

namespace SlashCommands

/-- The scope whose commands are set. -/
def RegistrarCall.setScope? : RegistrarCall → Option Scope
  | set scope _ => some scope
  | _ => none

/-- Whether a single command is created. -/
def RegistrarCall.isCreate : RegistrarCall → Bool
  | create .. => true
  | _ => false

namespace Activity

/-- The request, if it is one. -/
def call? : Activity → Option RegistrarCall
  | call c => some c
  | log _ => none

/-- The scope that is set, if one is. -/
def setScope? (a : Activity) : Option Scope :=
  a.call?.bind RegistrarCall.setScope?

/-- Whether a single command is created. -/
def isCreate (a : Activity) : Bool :=
  a.call?.any RegistrarCall.isCreate

end Activity

/-- The scopes that are set, in the order of the requests. -/
def setScopes (activities : List Activity) : List Scope :=
  activities.filterMap Activity.setScope?

@[simp]
theorem setScopes_append (as bs : List Activity) :
    setScopes (as ++ bs) = setScopes as ++ setScopes bs :=
  List.filterMap_append

theorem setScopes_flatMap {α : Type} (f : α → List Activity) :
    ∀ xs : List α, setScopes (xs.flatMap f) = xs.flatMap fun x => setScopes (f x)
  | [] => rfl
  | x :: xs => by
    rw [List.flatMap_cons, setScopes_append, setScopes_flatMap f xs, List.flatMap_cons]

theorem setScopes_eq_nil_iff {as : List Activity} :
    setScopes as = [] ↔ ∀ a ∈ as, a.setScope? = none :=
  List.filterMap_eq_nil_iff

theorem setScopes_logs {α : Type} (f : α → LogEntry) (xs : List α) :
    setScopes (xs.map fun x => .log (f x)) = [] := by
  simp [setScopes_eq_nil_iff, Activity.setScope?, Activity.call?]

variable {η κ : Type}

namespace Snapshot

section Submit

variable (registrar : Registrar) (scope : Scope) (specs : List (Spec η κ))

@[simp]
theorem submit_setScopes : setScopes (submit registrar scope specs).1 = [scope] := by
  simp only [submit]
  generalize refusal? _ = fault
  rcases fault with _ | cause <;> rfl

theorem submit_isCreate : ∀ a ∈ (submit registrar scope specs).1, a.isCreate = false := by
  simp only [submit]
  generalize refusal? _ = fault
  rcases fault with _ | cause <;>
    simp [Activity.isCreate, Activity.call?, RegistrarCall.isCreate]

end Submit

variable (s : Snapshot η κ) (registrar : Registrar)

theorem syncGlobal_setScopes :
    setScopes ((s.syncGlobal registrar).flatMap (·.1))
      = if s.globalSpecs.isEmpty then [] else [.global] := by
  rw [syncGlobal]
  split_ifs
  · rfl
  · simp

/-- The scopes of guilds are the keys of a map, so none is set twice. -/
theorem syncGuilds_setScopes :
    ∃ ids : List String, ids.Nodup
      ∧ setScopes (s.syncGuilds registrar).1 = ids.map Scope.guild := by
  rw [syncGuilds]
  split_ifs
  · exact ⟨[], List.nodup_nil, rfl⟩
  · split
    · exact ⟨[], List.nodup_nil, rfl⟩
    · rename_i contexts _
      let placement := Placement.ofSpecs contexts s.debugGuilds s.guildSpecs
      refine ⟨placement.guilds.keys, placement.guilds.keys_nodup, ?_⟩
      rw [setScopes_append, ← List.singleton_append, setScopes_append, setScopes_logs,
        setScopes_flatMap, SortedMap.keys, List.flatMap_map]
      simp only [submit_setScopes]
      rw [List.map_map, ← List.map_eq_flatMap]
      rfl

theorem sync_setScopes_nodup : (setScopes (s.sync registrar).1).Nodup := by
  obtain ⟨ids, hids, he⟩ := s.syncGuilds_setScopes registrar
  have hg : (ids.map Scope.guild).Nodup := hids.map fun _ _ h => by
    cases h
    rfl
  simp only [sync, setScopes_append, syncGlobal_setScopes, he]
  split_ifs
  · exact hg
  · refine List.nodup_cons.2 ⟨?_, hg⟩
    simp

theorem syncGlobal_isCreate :
    ∀ a ∈ (s.syncGlobal registrar).flatMap (·.1), a.isCreate = false := by
  intro a ha
  obtain ⟨b, hb, ha⟩ := List.mem_flatMap.1 ha
  rw [syncGlobal] at hb
  split_ifs at hb
  · cases hb
  · rw [List.mem_singleton.1 hb] at ha
    exact submit_isCreate _ _ _ a ha

theorem syncGuilds_isCreate : ∀ a ∈ (s.syncGuilds registrar).1, a.isCreate = false := by
  intro a ha
  rw [syncGuilds] at ha
  split_ifs at ha
  · cases ha
  · split at ha
    · rcases List.mem_pair.1 ha with rfl | rfl <;> rfl
    · simp only [List.cons_append, List.mem_cons, List.mem_append, List.mem_map,
        List.mem_flatMap] at ha
      obtain rfl | ⟨guild, -, rfl⟩ | ⟨b, ⟨e, -, rfl⟩, ha⟩ := ha
      · rfl
      · rfl
      · exact submit_isCreate _ _ _ a ha

theorem sync_isCreate : ∀ a ∈ (s.sync registrar).1, a.isCreate = false :=
  List.forall_mem_append.2 ⟨s.syncGlobal_isCreate registrar, s.syncGuilds_isCreate registrar⟩

end Snapshot

namespace Addition

theorem create_setScope? (a : Addition η κ) (scope : Scope) :
    ∀ b ∈ a.create scope, b.setScope? = none := by
  rw [create]
  rcases refusal? (a.registrar.create scope a.spec.payload) with _ | cause <;>
    simp [Activity.setScope?, Activity.call?, RegistrarCall.setScope?]

theorem run_setScope? (a : Addition η κ) : ∀ b ∈ a.run, b.setScope? = none := by
  intro b hb
  rw [run] at hb
  split_ifs at hb
  · exact a.create_setScope? _ b hb
  · split at hb
    · rcases List.mem_pair.1 hb with rfl | rfl <;> rfl
    · simp only [List.cons_append, List.mem_cons, List.mem_append, List.mem_map,
        List.mem_flatMap] at hb
      obtain rfl | ⟨guild, -, rfl⟩ | ⟨id, -, hb⟩ := hb
      · rfl
      · rfl
      · exact a.create_setScope? _ b hb

end Addition

end SlashCommands
