import Mathlib.Data.List.Perm.Basic
import SlashCommands.Proofs.RegistryIndex
import SlashCommands.Proofs.SyncCalls

/-!
# Startup

Any number of threads seal commands, add debug guilds and initialize one registry, and their moves
interleave. Sealing, and taking a command out to register it by itself, are two moves; so are the
opening and the closing of the first phase, with a move for each activity between them. What a
thread has yet to do is part of the state, next to a record of what was done.

A registry goes through three phases, and each has its invariant (`Startup.Waiting`,
`Startup.Syncing`, `Startup.Ready`). Every move keeps them (`Startup.Sound.step`), so they hold
after any moves (`Startup.run_sound`).
-/

namespace SlashCommands

variable {η κ : Type}

/-- The next item of one of several tasks, with what is left of the tasks. -/
def next? {α : Type} (tasks : List (List α)) (i : Nat) : Option (α × List (List α)) :=
  match tasks[i]? with
  | some (x :: rest) => some (x, tasks.set i rest)
  | _ => none

theorem next?_eq_some {α : Type} {tasks tasks' : List (List α)} {i : Nat} {x : α}
    (h : next? tasks i = some (x, tasks')) :
    ∃ pre rest post, tasks = pre ++ (x :: rest) :: post ∧ tasks' = pre ++ rest :: post := by
  rw [next?] at h
  split at h
  · rename_i x rest hx
    cases h
    obtain ⟨hi, he⟩ := List.getElem?_eq_some_iff.1 hx
    refine ⟨tasks.take i, rest, tasks.drop (i + 1), ?_, ?_⟩
    · rw [← he, List.getElem_cons_drop, List.take_append_drop]
    · rw [List.set_eq_take_append_cons_drop, if_pos hi]
  · cases h

/-- A registry in the course of its start, with everything that is under way at the same time. -/
structure Startup (η κ : Type) where
  registry : Registry η κ
  /-- Commands that were sealed and are about to be registered by themselves. -/
  sealing : List (Spec η κ)
  /-- What each initialization under way has yet to do. -/
  syncing : List (List Activity)
  /-- What each finished initialization has yet to take from the commands that waited for it. -/
  releasing : List (List (Spec η κ))
  /-- What each single registration under way has yet to do. -/
  adding : List (List Activity)
  trace : List Activity
  /-- What initializations worked on. -/
  snapshots : List (Snapshot η κ)
  /-- Commands whose single registration was started. -/
  added : List (Spec η κ)
  /-- Commands whose single registration was given up for want of a registrar. -/
  dropped : List (Spec η κ)

/-- One move of one thread. A number says which of the threads at that point moves. -/
inductive Startup.Move (η κ : Type)
  | add (s : Spec η κ)
  /-- A thread that sealed a command starts its registration; the answers are those that the
  registrar gives at that time. -/
  | handOver (i : Nat) (answers : Registrar)
  | debugGuilds (guilds : List String)
  | begin (registrar : Registrar) (runtime : Option Runtime)
  | request (i : Nat)
  | complete (i : Nat)
  | release (i : Nat) (answers : Registrar)
  | advance (i : Nat)

namespace Startup

/-- A registry before the first move. -/
def start : Startup η κ where
  registry := .empty
  sealing := []
  syncing := []
  releasing := []
  adding := []
  trace := []
  snapshots := []
  added := []
  dropped := []

/-- Starts the single registration of a command. -/
def hotAdd (t : Startup η κ) (answers : Registrar) (s : Spec η κ) : Startup η κ :=
  match t.registry.addition? s with
  | some a =>
    { t with
      adding := t.adding ++ [{ a with registrar := answers }.run]
      added := t.added ++ [s] }
  | none => { t with dropped := t.dropped ++ [s] }

/-- What one move makes of it. -/
def step (t : Startup η κ) : Move η κ → Startup η κ
  | .add s =>
    match t.registry.add s with
    | .ok (registry, alone) =>
      { t with registry, sealing := t.sealing ++ if alone then [s] else [] }
    | .error _ => t
  | .handOver i answers =>
    match t.sealing[i]? with
    | some s => ({ t with sealing := t.sealing.eraseIdx i } : Startup η κ).hotAdd answers s
    | none => t
  | .debugGuilds guilds => { t with registry := t.registry.addDebugGuilds guilds }
  | .begin registrar runtime =>
    match t.registry.begin registrar runtime with
    | .ok (registry, snapshot) =>
      { t with
        registry
        syncing := t.syncing ++ [(snapshot.sync registrar).1]
        snapshots := t.snapshots ++ [snapshot] }
    | .error _ => t
  | .request i =>
    match next? t.syncing i with
    | some (a, syncing) => { t with syncing, trace := t.trace ++ [a] }
    | none => t
  | .complete i =>
    match t.syncing[i]? with
    | some [] =>
      let (registry, queued) := t.registry.complete
      { t with
        registry
        syncing := t.syncing.eraseIdx i
        releasing := t.releasing ++ [queued] }
    | _ => t
  | .release i answers =>
    match next? t.releasing i with
    | some (s, releasing) => ({ t with releasing } : Startup η κ).hotAdd answers s
    | none => t
  | .advance i =>
    match next? t.adding i with
    | some (a, adding) => { t with adding, trace := t.trace ++ [a] }
    | none => t

/-- A registry after some moves. -/
def run (ms : List (Move η κ)) : Startup η κ :=
  ms.foldl step start

/-- The requests made so far, in their order. -/
def calls (t : Startup η κ) : List RegistrarCall :=
  t.trace.filterMap Activity.call?

/-- The first phase is over and nobody holds a command that has yet to be registered by itself. -/
structure Settled (t : Startup η κ) : Prop where
  state : t.registry.state = .ready
  sealing : t.sealing = []
  releasing : ∀ specs ∈ t.releasing, specs = []

/-! ## The three phases -/

/-- Nothing was registered yet. -/
structure Waiting (t : Startup η κ) : Prop where
  state : t.registry.state = .uninitialized
  queued : t.registry.queued = []
  sealing : t.sealing = []
  syncing : t.syncing = []
  releasing : t.releasing = []
  adding : t.adding = []
  trace : t.trace = []
  snapshots : t.snapshots = []
  added : t.added = []

/-- One initialization is under way; what was sealed since it began is in the queue. -/
structure Syncing (t : Startup η κ) : Prop where
  state : t.registry.state = .syncing
  equipped : t.registry.Equipped
  sealing : t.sealing = []
  releasing : t.releasing = []
  adding : t.adding = []
  added : t.added = []
  handed : ∃ snapshot, t.snapshots = [snapshot]
    ∧ t.registry.specs = snapshot.specs ++ t.registry.queued
  rest : ∃ rest, t.syncing = [rest] ∧ (setScopes (t.trace ++ rest)).Nodup
    ∧ ∀ a ∈ t.trace ++ rest, a.isCreate = false

/-- Commands are registered one by one; `held` are those that a thread has just taken. -/
structure Ready (held : List (Spec η κ)) (t : Startup η κ) : Prop where
  state : t.registry.state = .ready
  equipped : t.registry.Equipped
  queued : t.registry.queued = []
  syncing : t.syncing = []
  handed : ∃ snapshot, t.snapshots = [snapshot]
    ∧ (snapshot.specs ++ (t.added ++ (held ++ (t.sealing ++ t.releasing.flatten)))).Perm
      t.registry.specs
  adding : ∀ as ∈ t.adding, ∀ a ∈ as, a.setScope? = none
  distinct : (setScopes t.trace).Nodup
  ordered : t.trace.Pairwise fun a b => a.isCreate = true → b.setScope? = none

/-- What holds between any two moves. -/
structure Sound (t : Startup η κ) : Prop where
  indexed : t.registry.Indexed
  dropped : t.dropped = []
  phase : t.Waiting ∨ t.Syncing ∨ t.Ready []

theorem start_sound : (start : Startup η κ).Sound where
  indexed := Registry.empty_indexed
  dropped := rfl
  phase := .inl ⟨rfl, rfl, rfl, rfl, rfl, rfl, rfl, rfl, rfl⟩

section Step

variable {t : Startup η κ} {s : Spec η κ}

namespace Sound

theorem waiting (h : t.Sound) (hs : t.registry.state = .uninitialized) : t.Waiting := by
  rcases h.phase with hp | hp | hp
  · exact hp
  · simp [hp.state] at hs
  · simp [hp.state] at hs

theorem syncing_of_state (h : t.Sound) (hs : t.registry.state = .syncing) : t.Syncing := by
  rcases h.phase with hp | hp | hp
  · simp [hp.state] at hs
  · exact hp
  · simp [hp.state] at hs

theorem ready_of_state (h : t.Sound) (hs : t.registry.state = .ready) : t.Ready [] := by
  rcases h.phase with hp | hp | hp
  · simp [hp.state] at hs
  · simp [hp.state] at hs
  · exact hp

/-- Only while an initialization is under way there is one with something left to do. -/
theorem syncing_of_ne_nil (h : t.Sound) (hs : t.syncing ≠ []) : t.Syncing := by
  rcases h.phase with hp | hp | hp
  · exact absurd hp.syncing hs
  · exact hp
  · exact absurd hp.syncing hs

/-- Only while single registrations can be made there is something to be done for them. -/
theorem ready_of_ne_nil (h : t.Sound)
    (hs : t.sealing ≠ [] ∨ t.releasing ≠ [] ∨ t.adding ≠ []) : t.Ready [] := by
  rcases h.phase with hp | hp | hp
  · simp [hp.sealing, hp.releasing, hp.adding] at hs
  · simp [hp.sealing, hp.releasing, hp.adding] at hs
  · exact hp

end Sound

/-! ## One move -/

theorem Sound.add (h : t.Sound) {registry : Registry η κ} {alone : Bool}
    (ha : t.registry.add s = .ok (registry, alone)) :
    ({ t with
      registry
      sealing := t.sealing ++ if alone then [s] else [] } : Startup η κ).Sound := by
  obtain ⟨hn, hc⟩ := Registry.add_ok_iff.1 ha
  have hi := h.indexed.append hn
  rcases hc with ⟨hs, rfl, rfl⟩ | ⟨hs, rfl, rfl⟩ | ⟨hs, rfl, rfl⟩
  · have hp := h.waiting hs
    exact ⟨hi, h.dropped, .inl { hp with sealing := by simp [hp.sealing] }⟩
  · have hp := h.syncing_of_state hs
    obtain ⟨snapshot, hsn, hspecs⟩ := hp.handed
    refine ⟨hi, h.dropped, .inr (.inl { hp with sealing := by simp [hp.sealing], handed := ?_ })⟩
    exact ⟨snapshot, hsn, by simp [Registry.append, hspecs]⟩
  · have hp := h.ready_of_state hs
    obtain ⟨snapshot, hsn, hperm⟩ := hp.handed
    refine ⟨hi, h.dropped, .inr (.inr { hp with handed := ⟨snapshot, hsn, ?_⟩ })⟩
    refine .trans ?_ (hperm.append_right [s])
    simp only [List.append_assoc, List.nil_append, List.perm_append_left_iff]
    exact List.perm_append_comm

theorem Sound.addDebugGuilds (h : t.Sound) (guilds : List String) :
    ({ t with registry := t.registry.addDebugGuilds guilds } : Startup η κ).Sound := by
  refine ⟨h.indexed, h.dropped, ?_⟩
  rcases h.phase with hp | hp | hp
  · exact .inl { hp with }
  · exact .inr (.inl { hp with })
  · exact .inr (.inr { hp with })

theorem Sound.begin (h : t.Sound) {registrar : Registrar} {runtime : Option Runtime}
    {registry : Registry η κ} {snapshot : Snapshot η κ}
    (hb : t.registry.begin registrar runtime = .ok (registry, snapshot)) :
    ({ t with
      registry
      syncing := t.syncing ++ [(snapshot.sync registrar).1]
      snapshots := t.snapshots ++ [snapshot] } : Startup η κ).Sound := by
  obtain ⟨hs, place, rfl, rfl, rfl⟩ := Registry.begin_ok_iff.1 hb
  have hp := h.waiting hs
  refine ⟨h.indexed, h.dropped, .inr (.inl ?_)⟩
  exact
    { state := rfl
      equipped := ⟨registrar, place, rfl, rfl⟩
      sealing := hp.sealing
      releasing := hp.releasing
      adding := hp.adding
      added := hp.added
      handed := ⟨_, by rw [hp.snapshots]; rfl, by simp [hp.queued]⟩
      rest := by
        refine ⟨_, by rw [hp.syncing]; rfl, ?_⟩
        rw [hp.trace]
        exact ⟨Snapshot.sync_setScopes_nodup _ _, Snapshot.sync_isCreate _ _⟩ }

theorem Sound.request (h : t.Sound) {i : Nat} {a : Activity} {syncing : List (List Activity)}
    (hn : next? t.syncing i = some (a, syncing)) :
    ({ t with syncing, trace := t.trace ++ [a] } : Startup η κ).Sound := by
  obtain ⟨pre, rest, post, hsync, rfl⟩ := next?_eq_some hn
  have hp := h.syncing_of_ne_nil (by simp [hsync])
  obtain ⟨all, hall, hd, hc⟩ := hp.rest
  rw [hall] at hsync
  obtain ⟨rfl, rfl, rfl⟩ : pre = [] ∧ all = a :: rest ∧ post = [] := by
    rcases pre with _ | ⟨_, pre⟩ <;> simp at hsync ⊢
    exact hsync
  refine ⟨h.indexed, h.dropped, .inr (.inl { hp with rest := ⟨rest, rfl, ?_, ?_⟩ })⟩
  · simpa using hd
  · simpa using hc

theorem Sound.complete (h : t.Sound) {i : Nat} (hi : t.syncing[i]? = some []) :
    ({ t with
      registry := t.registry.complete.1
      syncing := t.syncing.eraseIdx i
      releasing := t.releasing ++ [t.registry.complete.2] } : Startup η κ).Sound := by
  have hp := h.syncing_of_ne_nil (List.ne_nil_of_mem (List.mem_of_getElem? hi))
  obtain ⟨rest, hrest, hd, hc⟩ := hp.rest
  obtain ⟨snapshot, hsn, hspecs⟩ := hp.handed
  obtain ⟨rfl, rfl⟩ : i = 0 ∧ rest = [] := by
    rw [hrest] at hi
    rcases i with _ | i <;> simp at hi ⊢
    exact hi
  rw [List.append_nil] at hd hc
  refine ⟨h.indexed, h.dropped, .inr (.inr ?_)⟩
  exact
    { state := rfl
      equipped := hp.equipped
      queued := rfl
      syncing := by rw [hrest]; rfl
      handed := by
        refine ⟨snapshot, hsn, .of_eq ?_⟩
        simp [hp.added, hp.sealing, hp.releasing, Registry.complete, hspecs]
      adding := by simp [hp.adding]
      distinct := hd
      ordered := List.pairwise_of_forall_mem_list fun a ha b _ hcr => by
        rw [hc a ha] at hcr
        cases hcr }

/-- A command that a thread has taken is registered by itself: there is a registrar to do it. -/
theorem Ready.hotAdd (h : t.Ready [s]) (answers : Registrar) :
    (t.hotAdd answers s).Ready [] ∧ (t.hotAdd answers s).dropped = t.dropped
      ∧ (t.hotAdd answers s).registry = t.registry := by
  obtain ⟨a, ha, -⟩ := h.equipped.addition?_eq_some s
  obtain ⟨snapshot, hsn, hperm⟩ := h.handed
  rw [Startup.hotAdd, ha]
  refine ⟨{ h with handed := ⟨snapshot, hsn, ?_⟩, adding := ?_ }, rfl, rfl⟩
  · simpa using hperm
  · exact List.forall_mem_append.2
      ⟨h.adding, List.forall_mem_singleton.2 (Addition.run_setScope? _)⟩

theorem Ready.hotAdd_sound (h : t.Ready [s]) (hi : t.registry.Indexed) (hd : t.dropped = [])
    (answers : Registrar) : (t.hotAdd answers s).Sound := by
  obtain ⟨hr, he, hg⟩ := h.hotAdd answers
  exact ⟨hg ▸ hi, he.trans hd, .inr (.inr hr)⟩

theorem Sound.handOver (h : t.Sound) {i : Nat} (hs : t.sealing[i]? = some s)
    (answers : Registrar) :
    (({ t with sealing := t.sealing.eraseIdx i } : Startup η κ).hotAdd answers s).Sound := by
  have hp := h.ready_of_ne_nil (.inl (List.ne_nil_of_mem (List.mem_of_getElem? hs)))
  obtain ⟨snapshot, hsn, hperm⟩ := hp.handed
  obtain ⟨hi, rfl⟩ := List.getElem?_eq_some_iff.1 hs
  have hr : ({ t with sealing := t.sealing.eraseIdx i } : Startup η κ).Ready [t.sealing[i]] := by
    refine { hp with handed := ⟨snapshot, hsn, .trans (.append_left _ (.append_left _ ?_)) hperm⟩ }
    exact (List.getElem_cons_eraseIdx_perm hi).append_right _
  exact hr.hotAdd_sound h.indexed h.dropped answers

theorem Sound.release (h : t.Sound) {i : Nat} {releasing : List (List (Spec η κ))}
    (hn : next? t.releasing i = some (s, releasing)) (answers : Registrar) :
    (({ t with releasing } : Startup η κ).hotAdd answers s).Sound := by
  obtain ⟨pre, rest, post, hr, rfl⟩ := next?_eq_some hn
  have hp := h.ready_of_ne_nil (.inr (.inl (by simp [hr])))
  obtain ⟨snapshot, hsn, hperm⟩ := hp.handed
  have hs : ({ t with releasing := pre ++ rest :: post } : Startup η κ).Ready [s] := by
    refine { hp with handed := ⟨snapshot, hsn, .trans (.append_left _ (.append_left _ ?_)) hperm⟩ }
    simp only [hr, List.flatten_append, List.flatten_cons, List.cons_append, List.nil_append]
    exact List.perm_middle.symm.trans (.append_left _ List.perm_middle.symm)
  exact hs.hotAdd_sound h.indexed h.dropped answers

theorem Sound.advance (h : t.Sound) {i : Nat} {a : Activity} {adding : List (List Activity)}
    (hn : next? t.adding i = some (a, adding)) :
    ({ t with adding, trace := t.trace ++ [a] } : Startup η κ).Sound := by
  obtain ⟨pre, rest, post, ha, rfl⟩ := next?_eq_some hn
  have hp := h.ready_of_ne_nil (.inr (.inr (by simp [ha])))
  have hall := hp.adding
  rw [ha, List.forall_mem_append, List.forall_mem_cons, List.forall_mem_cons] at hall
  obtain ⟨hpre, ⟨hset, hrest⟩, hpost⟩ := hall
  refine ⟨h.indexed, h.dropped, .inr (.inr { hp with adding := ?_, distinct := ?_, ordered := ?_ })⟩
  · exact List.forall_mem_append.2 ⟨hpre, List.forall_mem_cons.2 ⟨hrest, hpost⟩⟩
  · simpa [setScopes_eq_nil_iff.2 (List.forall_mem_singleton.2 hset)] using hp.distinct
  · refine List.pairwise_append.2 ⟨hp.ordered, List.pairwise_singleton _ _, ?_⟩
    intro b _ c hc _
    rw [List.mem_singleton.1 hc]
    exact hset

theorem Sound.step (h : t.Sound) (m : Move η κ) : (t.step m).Sound := by
  cases m with
  | add s =>
    rw [Startup.step]
    split
    · exact h.add ‹_›
    · exact h
  | handOver i answers =>
    rw [Startup.step]
    split
    · exact h.handOver ‹_› answers
    · exact h
  | debugGuilds guilds => exact h.addDebugGuilds guilds
  | begin registrar runtime =>
    rw [Startup.step]
    split
    · exact h.begin ‹_›
    · exact h
  | request i =>
    rw [Startup.step]
    split
    · exact h.request ‹_›
    · exact h
  | complete i =>
    rw [Startup.step]
    split
    · exact h.complete ‹_›
    · exact h
  | release i answers =>
    rw [Startup.step]
    split
    · exact h.release ‹_› answers
    · exact h
  | advance i =>
    rw [Startup.step]
    split
    · exact h.advance ‹_›
    · exact h

end Step

theorem foldl_sound : ∀ (ms : List (Move η κ)) {t : Startup η κ}, t.Sound → (ms.foldl step t).Sound
  | [], _, h => h
  | m :: ms, _, h => foldl_sound ms (h.step m)

theorem run_sound (ms : List (Move η κ)) : (run ms).Sound :=
  foldl_sound ms start_sound

end Startup

end SlashCommands
