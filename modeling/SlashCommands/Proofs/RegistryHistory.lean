import Mathlib.Data.List.Induction
import SlashCommands.Proofs.Startup

/-!
# The history of a registry

What the registry of a startup holds, told by the moves up to then. A move changes it in one of four
ways (`Startup.Changed`), so what is said of all moves needs four cases. The commands in it are
those whose sealing was accepted (`Startup.mem_specs_iff`), and the first command that asks for a
name gets it (`Startup.mem_names_iff`). Later moves only append (`Startup.specs_isPrefix`), and the
phases follow each other (`Startup.Changed.state`). `Startup.run_history` collects this for any
moves.
-/

namespace SlashCommands

variable {η κ : Type}

/-- One phase follows the other. -/
inductive RegistryState.Next : RegistryState → RegistryState → Prop
  | opened : Next uninitialized syncing
  | closed : Next syncing ready

theorem RegistryState.Next.ne_uninitialized {a b : RegistryState} (h : Next a b) :
    b ≠ .uninitialized := by
  cases h <;> simp

namespace Registry

variable {r : Registry η κ} {s : Spec η κ}

/-- There is somebody to register commands with as soon as the first phase was opened. -/
structure Staffed (r : Registry η κ) : Prop where
  registrar : r.registrar.isSome ↔ r.state ≠ .uninitialized
  runtime : r.runtime.isSome ↔ r.state ≠ .uninitialized

/-- A command is accepted exactly if its name is not taken. -/
theorem Indexed.exists_add_ok_iff (h : r.Indexed) : (∃ x, r.add s = .ok x) ↔ s.name ∉ r.names := by
  rw [← h.contains_iff, Bool.not_eq_true]
  constructor
  · rintro ⟨x, hx⟩
    exact (add_ok_iff.1 hx).1
  · intro hc
    rcases ha : r.add s with fault | x
    · simp [(add_error_iff.1 ha).1] at hc
    · exact ⟨x, rfl⟩

end Registry

namespace Startup

variable {t : Startup η κ} {m : Move η κ} {r : Registry η κ}

@[simp]
theorem hotAdd_registry (answers : Registrar) (s : Spec η κ) :
    (t.hotAdd answers s).registry = t.registry := by
  unfold hotAdd
  split <;> rfl

/-- What a move makes of the registry. -/
inductive Changed (t : Startup η κ) : Move η κ → Registry η κ → Prop
  | sealed {s registry alone} (h : t.registry.add s = .ok (registry, alone)) :
      Changed t (.add s) registry
  | taken {s} (h : s.name ∈ t.registry.names) : Changed t (.add s) t.registry
  | opened {registrar runtime registry snapshot}
      (h : t.registry.begin registrar runtime = .ok (registry, snapshot)) :
      Changed t (.begin registrar runtime) registry
  | closed {i} (h : t.syncing[i]? = some []) : Changed t (.complete i) t.registry.complete.1
  | guilds (guilds) : Changed t (.debugGuilds guilds) (t.registry.addDebugGuilds guilds)
  | kept {m : Move η κ} (h : ∀ s, m ≠ .add s) : Changed t m t.registry

theorem Sound.changed (h : t.Sound) (m : Move η κ) : t.Changed m (t.step m).registry := by
  unfold Startup.step
  cases m with
  | add s =>
    dsimp only
    split
    · exact .sealed ‹_›
    · exact .taken (h.indexed.contains_iff.1 (Registry.add_error_iff.1 ‹_›).1)
  | handOver i answers =>
    dsimp only
    split
    · rw [hotAdd_registry]
      exact .kept (by simp)
    · exact .kept (by simp)
  | debugGuilds guilds => exact .guilds guilds
  | begin registrar runtime =>
    dsimp only
    split
    · exact .opened ‹_›
    · exact .kept (by simp)
  | request i =>
    dsimp only
    split <;> exact .kept (by simp)
  | complete i =>
    dsimp only
    split
    · exact .closed ‹_›
    · exact .kept (by simp)
  | release i answers =>
    dsimp only
    split
    · rw [hotAdd_registry]
      exact .kept (by simp)
    · exact .kept (by simp)
  | advance i =>
    dsimp only
    split <;> exact .kept (by simp)

/-! ## What one move can do -/

namespace Changed

/-- The commands stay, and an accepted one is appended. -/
theorem specs (h : t.Changed m r) (hi : t.registry.Indexed) :
    (∃ s, m = .add s ∧ s.name ∉ t.registry.names ∧ r.specs = t.registry.specs ++ [s])
      ∨ (∀ s, m = .add s → s.name ∈ t.registry.names) ∧ r.specs = t.registry.specs := by
  cases h with
  | @sealed s _ _ h =>
    obtain ⟨-, hc⟩ := Registry.add_ok_iff.1 h
    refine .inl ⟨s, rfl, hi.exists_add_ok_iff.1 ⟨_, h⟩, ?_⟩
    rcases hc with ⟨-, rfl, -⟩ | ⟨-, rfl, -⟩ | ⟨-, rfl, -⟩ <;> rfl
  | taken h =>
    refine .inr ⟨?_, rfl⟩
    rintro s ⟨⟩
    exact h
  | opened h =>
    obtain ⟨-, place, -, rfl, -⟩ := Registry.begin_ok_iff.1 h
    exact .inr ⟨by simp, rfl⟩
  | closed => exact .inr ⟨by simp, rfl⟩
  | guilds => exact .inr ⟨by simp, rfl⟩
  | kept h => exact .inr ⟨fun s hs => absurd hs (h s), rfl⟩

theorem state (h : t.Changed m r) (hs : t.Sound) :
    r.state = t.registry.state ∨ RegistryState.Next t.registry.state r.state := by
  cases h with
  | sealed h =>
    obtain ⟨-, hc⟩ := Registry.add_ok_iff.1 h
    rcases hc with ⟨-, rfl, -⟩ | ⟨-, rfl, -⟩ | ⟨-, rfl, -⟩ <;> exact .inl rfl
  | opened h =>
    obtain ⟨hu, place, -, rfl, -⟩ := Registry.begin_ok_iff.1 h
    rw [hu]
    exact .inr .opened
  | closed h =>
    have hp := hs.syncing_of_ne_nil (List.ne_nil_of_mem (List.mem_of_getElem? h))
    rw [hp.state]
    exact .inr .closed
  | taken => exact .inl rfl
  | guilds => exact .inl rfl
  | kept => exact .inl rfl

theorem state_ne_uninitialized (h : t.Changed m r) (hs : t.Sound)
    (hu : t.registry.state ≠ .uninitialized) : r.state ≠ .uninitialized := by
  rcases h.state hs with he | hn
  · rwa [he]
  · exact hn.ne_uninitialized

theorem staffed (h : t.Changed m r) (hs : t.Sound) (hr : t.registry.Staffed) : r.Staffed := by
  cases h with
  | sealed h =>
    obtain ⟨-, hc⟩ := Registry.add_ok_iff.1 h
    rcases hc with ⟨-, rfl, -⟩ | ⟨-, rfl, -⟩ | ⟨-, rfl, -⟩ <;> exact ⟨hr.registrar, hr.runtime⟩
  | opened h =>
    obtain ⟨-, place, -, rfl, -⟩ := Registry.begin_ok_iff.1 h
    exact ⟨by simp, by simp⟩
  | closed h =>
    have hp := hs.syncing_of_ne_nil (List.ne_nil_of_mem (List.mem_of_getElem? h))
    have hu : t.registry.state ≠ .uninitialized := by simp [hp.state]
    exact ⟨⟨by simp [Registry.complete], fun _ => hr.registrar.2 hu⟩,
      ⟨by simp [Registry.complete], fun _ => hr.runtime.2 hu⟩⟩
  | taken => exact hr
  | guilds => exact ⟨hr.registrar, hr.runtime⟩
  | kept => exact hr

end Changed

/-! ## What any moves lead to -/

theorem run_concat (ms : List (Move η κ)) (m : Move η κ) : run (ms ++ [m]) = (run ms).step m :=
  List.foldl_concat ..

theorem changed_run (ms : List (Move η κ)) (m : Move η κ) :
    (run ms).Changed m (run (ms ++ [m])).registry := by
  rw [run_concat]
  exact (run_sound ms).changed m

/-- The move at this place seals this command. -/
def Seals (ms : List (Move η κ)) (i : Nat) (s : Spec η κ) : Prop :=
  ms[i]? = some (.add s) ∧ ∃ x, (run (ms.take i)).registry.add s = .ok x

/-- The move at this place opens the first phase. -/
def Opens (ms : List (Move η κ)) (i : Nat) : Prop :=
  ∃ registrar runtime, ms[i]? = some (.begin registrar runtime)
    ∧ ∃ x, (run (ms.take i)).registry.begin registrar runtime = .ok x

/-- Somebody asked for this name. -/
def Asked (ms : List (Move η κ)) (name : String) : Prop :=
  ∃ s, .add s ∈ ms ∧ s.name = name

theorem specs_isPrefix (ms more : List (Move η κ)) :
    (run ms).registry.specs <+: (run (ms ++ more)).registry.specs := by
  induction more using List.reverseRecOn with
  | nil => simp
  | append_singleton more m ih =>
    rw [← List.append_assoc]
    rcases (changed_run (ms ++ more) m).specs (run_sound _).indexed with ⟨s, -, -, hs⟩ | ⟨-, hs⟩
    · rw [hs]
      exact ih.trans (List.prefix_append _ _)
    · rwa [hs]

theorem state_ne_uninitialized (ms more : List (Move η κ))
    (h : (run ms).registry.state ≠ .uninitialized) :
    (run (ms ++ more)).registry.state ≠ .uninitialized := by
  induction more using List.reverseRecOn with
  | nil => rwa [List.append_nil]
  | append_singleton more m ih =>
    rw [← List.append_assoc]
    exact (changed_run _ m).state_ne_uninitialized (run_sound _) ih

theorem run_staffed (ms : List (Move η κ)) : (run ms).registry.Staffed := by
  induction ms using List.reverseRecOn with
  | nil => exact ⟨by simp [run, start, Registry.empty], by simp [run, start, Registry.empty]⟩
  | append_singleton ms m ih => exact (changed_run ms m).staffed (run_sound ms) ih

/-! ## Who gets a name -/

@[simp]
theorem asked_nil (name : String) : ¬ Asked ([] : List (Move η κ)) name := by
  simp [Asked]

theorem asked_concat_iff {ms : List (Move η κ)} {m : Move η κ} {name : String} :
    Asked (ms ++ [m]) name ↔ Asked ms name ∨ ∃ s, m = .add s ∧ s.name = name := by
  simp [Asked, or_and_right, exists_or, eq_comm]

/-- A name is taken as soon as somebody asks for it. -/
theorem mem_names_iff (ms : List (Move η κ)) (name : String) :
    name ∈ (run ms).registry.names ↔ Asked ms name := by
  induction ms using List.reverseRecOn with
  | nil => simp [run, start, Registry.empty, Registry.names]
  | append_singleton ms m ih =>
    rw [asked_concat_iff, ← ih]
    rcases (changed_run ms m).specs (run_sound _).indexed with ⟨s, rfl, -, hs⟩ | ⟨ht, hs⟩
    · simp [Registry.names, hs, eq_comm]
    · simp only [Registry.names, hs, iff_self_or]
      rintro ⟨s, hm, rfl⟩
      exact ht s hm

theorem seals_iff {ms : List (Move η κ)} {i : Nat} {s : Spec η κ} :
    Seals ms i s ↔ ms[i]? = some (.add s) ∧ ¬ Asked (ms.take i) s.name := by
  unfold Seals
  rw [(run_sound _).indexed.exists_add_ok_iff, mem_names_iff]

theorem exists_seals_concat_iff {ms : List (Move η κ)} {m : Move η κ} {s : Spec η κ} :
    (∃ i, Seals (ms ++ [m]) i s) ↔ (∃ i, Seals ms i s) ∨ m = .add s ∧ ¬ Asked ms s.name := by
  simp only [seals_iff, Registry.getElem?_concat_eq_some_iff]
  constructor
  · rintro ⟨i, hi | ⟨rfl, rfl⟩, hn⟩
    · obtain ⟨hl, -⟩ := List.getElem?_eq_some_iff.1 hi
      rw [List.take_append_of_le_length (Nat.le_of_lt hl)] at hn
      exact .inl ⟨i, hi, hn⟩
    · rw [List.take_left] at hn
      exact .inr ⟨rfl, hn⟩
  · rintro (⟨i, hi, hn⟩ | ⟨rfl, hn⟩)
    · obtain ⟨hl, -⟩ := List.getElem?_eq_some_iff.1 hi
      rw [← List.take_append_of_le_length (Nat.le_of_lt hl)] at hn
      exact ⟨i, .inl hi, hn⟩
    · exact ⟨ms.length, .inr ⟨rfl, rfl⟩, by rwa [List.take_left]⟩

/-- The commands in the registry are those whose sealing was accepted. -/
theorem mem_specs_iff (ms : List (Move η κ)) (s : Spec η κ) :
    s ∈ (run ms).registry.specs ↔ ∃ i, Seals ms i s := by
  induction ms using List.reverseRecOn with
  | nil => simp [run, start, Registry.empty, Seals]
  | append_singleton ms m ih =>
    rw [exists_seals_concat_iff, ← ih, ← mem_names_iff]
    rcases (changed_run ms m).specs (run_sound _).indexed with ⟨s', rfl, hn, hs⟩ | ⟨ht, hs⟩
    · rw [hs, List.mem_append, List.mem_singleton]
      refine or_congr_right ⟨?_, ?_⟩
      · rintro rfl
        exact ⟨rfl, hn⟩
      · rintro ⟨⟨⟩, -⟩
        rfl
    · rw [hs, iff_self_or]
      rintro ⟨hm, hn⟩
      exact absurd (ht s hm) hn

/-- Of all that ask for one name, the first is the only one to get it. -/
theorem seals_unique {ms : List (Move η κ)} {i j : Nat} {s s' : Spec η κ} (hi : Seals ms i s)
    (hj : Seals ms j s') (hn : s.name = s'.name) : i = j := by
  have hle : ∀ {i j s s'}, Seals ms i s → Seals ms j s' → s.name = s'.name → j ≤ i := by
    intro i j s s' hi hj hn
    by_contra hlt
    have hm : (ms.take j)[i]? = some (.add s) := by
      rw [List.getElem?_take_of_lt (by omega)]
      exact hi.1
    exact (seals_iff.1 hj).2 ⟨s, List.mem_of_getElem? hm, hn⟩
  exact Nat.le_antisymm (hle hj hi hn.symm) (hle hi hj hn)

theorem Asked.exists_seals {ms : List (Move η κ)} {name : String} (h : Asked ms name) :
    ∃ i s, s.name = name ∧ Seals ms i s := by
  rw [← mem_names_iff, Registry.names, List.mem_map] at h
  obtain ⟨s, hs, hn⟩ := h
  obtain ⟨i, hi⟩ := (mem_specs_iff ms s).1 hs
  exact ⟨i, s, hn, hi⟩

/-! ## Opening the first phase -/

theorem Opens.state {ms : List (Move η κ)} {i : Nat} (h : Opens ms i) :
    (run (ms.take i)).registry.state = .uninitialized
      ∧ (run (ms.take (i + 1))).registry.state = .syncing := by
  obtain ⟨registrar, runtime, hi, ⟨registry, snapshot⟩, hb⟩ := h
  rw [List.take_add_one, hi, Option.toList_some, run_concat, step, hb]
  obtain ⟨hu, place, -, rfl, -⟩ := Registry.begin_ok_iff.1 hb
  exact ⟨hu, rfl⟩

theorem opens_unique {ms : List (Move η κ)} {i j : Nat} (hi : Opens ms i) (hj : Opens ms j) :
    i = j := by
  have hle : ∀ {i j}, Opens ms i → Opens ms j → j ≤ i := by
    intro i j hi hj
    by_contra hlt
    refine state_ne_uninitialized (ms.take (i + 1)) ((ms.take j).drop (i + 1)) ?_ ?_
    · simp [hi.state.2]
    · have ht : ms.take (i + 1) = (ms.take j).take (i + 1) := by
        rw [List.take_take, Nat.min_eq_left (by omega)]
      rw [ht, List.take_append_drop]
      exact hj.state.1
  exact Nat.le_antisymm (hle hj hi) (hle hi hj)

/-! ## The whole history -/

/-- What a registry is after some moves, and what becomes of it. -/
structure History (ms : List (Move η κ)) : Prop where
  distinct : (run ms).registry.names.Nodup
  indexed : (run ms).registry.Indexed
  found : ∀ name s, (run ms).registry.get? name = some s ↔ s.name = name ∧ ∃ i, Seals ms i s
  appended : ∀ more, (run ms).registry.specs <+: (run (ms ++ more)).registry.specs
  lasting : ∀ more name s, (run ms).registry.get? name = some s →
    (run (ms ++ more)).registry.get? name = some s
  /-- Of all that ask for one name, exactly one gets it … -/
  sealedOnce : ∀ name, Asked ms name → ∃! i, ∃ s, s.name = name ∧ Seals ms i s
  /-- … namely the first. -/
  sealedFirst : ∀ i s, ms[i]? = some (.add s) → (Seals ms i s ↔ ¬ Asked (ms.take i) s.name)
  forward : ∀ m, (run (ms ++ [m])).registry.state = (run ms).registry.state
    ∨ RegistryState.Next (run ms).registry.state (run (ms ++ [m])).registry.state
  openedOnce : ∀ i j, Opens ms i → Opens ms j → i = j
  /-- Nothing at all comes of a first phase that is refused, so no request either. -/
  refused : ∀ registrar runtime fault,
    (run ms).registry.begin registrar runtime = .error fault →
      run (ms ++ [.begin registrar runtime]) = run ms
  unqueued : (run ms).registry.state ≠ .syncing → (run ms).registry.queued = []
  /-- The queue is what was sealed since the first phase was opened. -/
  queued : (run ms).registry.state = .syncing → ∃ snapshot, (run ms).snapshots = [snapshot]
    ∧ (run ms).registry.specs = snapshot.specs ++ (run ms).registry.queued
  staffed : (run ms).registry.Staffed

theorem Sound.queued_eq_nil (h : t.Sound) (hs : t.registry.state ≠ .syncing) :
    t.registry.queued = [] := by
  rcases h.phase with hp | hp | hp
  · exact hp.queued
  · exact absurd hp.state hs
  · exact hp.queued

theorem run_history (ms : List (Move η κ)) : History ms := by
  have h := run_sound ms
  have hfound : ∀ ms name s, (run ms).registry.get? name = some s
      ↔ s.name = name ∧ ∃ i, Seals (η := η) (κ := κ) ms i s := by
    intro ms name s
    rw [(run_sound ms).indexed.get?_eq_some_iff, mem_specs_iff, and_comm]
  exact
    { distinct := h.indexed.nodup
      indexed := h.indexed
      found := hfound ms
      appended := specs_isPrefix ms
      lasting := by
        intro more name s
        rw [h.indexed.get?_eq_some_iff, (run_sound _).indexed.get?_eq_some_iff]
        exact And.imp_left fun hs => (specs_isPrefix ms more).subset hs
      sealedOnce := by
        intro name ha
        obtain ⟨i, s, hn, hi⟩ := ha.exists_seals
        refine ⟨i, ⟨s, hn, hi⟩, ?_⟩
        rintro j ⟨s', hn', hj⟩
        exact seals_unique hj hi (hn'.trans hn.symm)
      sealedFirst := fun i s hi => by simp [seals_iff, hi]
      forward := fun m => (changed_run ms m).state h
      openedOnce := fun i j => opens_unique
      refused := by
        intro registrar runtime fault hb
        rw [run_concat, step, hb]
      unqueued := h.queued_eq_nil
      queued := fun hs => (h.syncing_of_state hs).handed
      staffed := run_staffed ms }

end Startup

end SlashCommands
