import SlashCommands.Proofs.Checked
import SlashCommands.Proofs.SortedEntries
import SlashCommands.Registry

/-!
# The index of a registry

The index gives each name its place among the sealed commands (`Registry.Indexed`), so names are
distinct (`Registry.Indexed.nodup`) and a name finds the command that has it
(`Registry.Indexed.get?_eq_some_iff`). Sealing is the only operation that changes the commands, and
it appends the new one (`Registry.add_ok_iff`), so what a name finds it finds for good
(`Registry.grows_of_add`).
-/

namespace SlashCommands

namespace Registry

open Checked

variable {η κ : Type} {r r' : Registry η κ} {s : Spec η κ}

/-- The names of the commands, in the order of their sealing. -/
def names (r : Registry η κ) : List String :=
  r.specs.map (·.name)

/-- A name is found in the index exactly at the place where a command of that name stands. -/
def Indexed (r : Registry η κ) : Prop :=
  ∀ name i, r.index.find? name = some i ↔ r.names[i]? = some name

/-- A command as it is added, before anyone is told. -/
def append (r : Registry η κ) (s : Spec η κ) : Registry η κ :=
  { r with index := r.index.insert s.name r.specs.length, specs := r.specs ++ [s] }

theorem names_length : r.names.length = r.specs.length :=
  List.length_map _

theorem getElem?_concat_eq_some_iff {α : Type} {xs : List α} {x y : α} {i : Nat} :
    (xs ++ [x])[i]? = some y ↔ xs[i]? = some y ∨ i = xs.length ∧ x = y := by
  rw [List.getElem?_append]
  split
  · rename_i hi
    simp [Nat.ne_of_lt hi]
  · rename_i hi
    rw [List.getElem?_eq_none (Nat.le_of_not_lt hi), List.getElem?_singleton]
    split <;> simp <;> omega

theorem names_append : (r.append s).names = r.names ++ [s.name] := by
  simp [names, append]

/-- What sealing does with a command of a new name, by the state that it finds. -/
theorem add_ok_iff {alone : Bool} :
    r.add s = .ok (r', alone) ↔ r.index.contains s.name = false
      ∧ (r.state = .uninitialized ∧ r' = r.append s ∧ alone = false
        ∨ r.state = .syncing ∧ r' = { r.append s with queued := r.queued ++ [s] } ∧ alone = false
        ∨ r.state = .ready ∧ r' = r.append s ∧ alone = true) := by
  rcases r with ⟨specs, index, state, debugGuilds, queued, registrar, runtime⟩
  rw [add]
  rcases index.contains s.name <;> rcases state <;>
    simp only [append, Bool.false_eq_true, if_false, if_true, reduceCtorEq,
      Except.ok.injEq, Prod.mk.injEq, true_and, false_and, or_false, false_or, eq_comm]

/-- A registry refuses only a command whose name is taken. -/
theorem add_error_iff {fault : Fault} :
    r.add s = .error fault ↔
      r.index.contains s.name = true ∧ fault = .duplicate "command" s.name := by
  rw [add]
  rcases r.index.contains s.name <;> rcases r.state <;> simp [eq_comm]

theorem begin_ok_iff {registrar : Registrar} {runtime : Option Runtime}
    {snapshot : Snapshot η κ} :
    r.begin registrar runtime = .ok (r', snapshot) ↔ r.state = .uninitialized
      ∧ ∃ place, runtime = some place
        ∧ r' = { r with state := .syncing, registrar := some registrar, runtime := some place }
        ∧ snapshot = ⟨r.specs, r.debugGuilds⟩ := by
  rcases runtime with _ | place
  · simp [begin]
  · rcases hs : r.state <;> simp [begin, hs, eq_comm]

/-- Commands may have come, and each one is found as before. -/
def Grows (r r' : Registry η κ) : Prop :=
  ∀ name s, r.get? name = some s → r'.get? name = some s

theorem Grows.refl (r : Registry η κ) : r.Grows r :=
  fun _ _ hs => hs

theorem Grows.trans {r'' : Registry η κ} (h : r.Grows r') (h' : r'.Grows r'') : r.Grows r'' :=
  fun name s hs => h' name s (h name s hs)

theorem grows_append (hn : r.index.contains s.name = false) : r.Grows (r.append s) := by
  intro name t ht
  obtain ⟨i, hi, ht⟩ := Option.bind_eq_some_iff.1 ht
  have hne : name ≠ s.name := by
    rintro rfl
    rw [SortedMap.contains, hi] at hn
    cases hn
  rw [get?, append, SortedMap.find?_insert_of_ne hne, hi]
  exact getElem?_concat_eq_some_iff.2 (.inl ht)

theorem grows_of_add {alone : Bool} (h : r.add s = .ok (r', alone)) : r.Grows r' := by
  obtain ⟨hn, h⟩ := add_ok_iff.1 h
  rcases h with ⟨-, rfl, -⟩ | ⟨-, rfl, -⟩ | ⟨-, rfl, -⟩ <;> exact grows_append hn

theorem grows_of_begin {registrar : Registrar} {runtime : Option Runtime}
    {snapshot : Snapshot η κ} (h : r.begin registrar runtime = .ok (r', snapshot)) :
    r.Grows r' := by
  obtain ⟨-, place, -, rfl, -⟩ := begin_ok_iff.1 h
  exact .refl r

theorem grows_complete (r : Registry η κ) : r.Grows r.complete.1 :=
  .refl r

/-- The first phase was opened, so there is someone to register commands with. -/
def Equipped (r : Registry η κ) : Prop :=
  ∃ registrar runtime, r.registrar = some registrar ∧ r.runtime = some runtime

theorem Equipped.addition?_eq_some (h : r.Equipped) (s : Spec η κ) :
    ∃ a, r.addition? s = some a ∧ a.spec = s := by
  obtain ⟨registrar, runtime, h1, h2⟩ := h
  exact ⟨⟨s, r.targets s, registrar, runtime⟩, by rw [addition?, h1, h2], rfl⟩

theorem empty_indexed : (empty : Registry η κ).Indexed := by
  intro name i
  simp [empty, names, SortedMap.find?, SortedMap.empty]

namespace Indexed

theorem contains_iff (h : r.Indexed) {name : String} :
    r.index.contains name = true ↔ name ∈ r.names := by
  rw [SortedMap.contains, Option.isSome_iff_exists, List.mem_iff_getElem?]
  exact exists_congr fun i => h name i

theorem nodup (h : r.Indexed) : r.names.Nodup := by
  rw [List.nodup_iff_getElem?_ne_getElem?]
  intro i j hij hj he
  have hjn := (h _ _).2 (List.getElem?_eq_getElem hj)
  have hin := (h _ _).2 (he.trans (List.getElem?_eq_getElem hj))
  rw [hjn] at hin
  cases hin
  omega

theorem get?_eq_some_iff (h : r.Indexed) {name : String} :
    r.get? name = some s ↔ s ∈ r.specs ∧ s.name = name := by
  simp only [get?, Option.bind_eq_some_iff, h name, names, List.getElem?_map,
    Option.map_eq_some_iff]
  constructor
  · rintro ⟨i, ⟨t, ht, hn⟩, hs⟩
    rw [hs] at ht
    cases ht
    exact ⟨List.mem_of_getElem? hs, hn⟩
  · rintro ⟨hs, hn⟩
    obtain ⟨i, hi⟩ := List.mem_iff_getElem?.1 hs
    exact ⟨i, ⟨s, hi, hn⟩, hi⟩

theorem append (h : r.Indexed) (hn : r.index.contains s.name = false) :
    (r.append s).Indexed := by
  intro name i
  rw [← Bool.not_eq_true, h.contains_iff] at hn
  rw [names_append, getElem?_concat_eq_some_iff, names_length, Registry.append]
  by_cases he : name = s.name
  · subst he
    rw [SortedMap.find?_insert_self, Option.some.injEq]
    constructor
    · intro hi
      exact .inr ⟨hi.symm, rfl⟩
    · rintro (hi | ⟨hi, -⟩)
      · exact absurd (List.mem_of_getElem? hi) hn
      · exact hi.symm
  · rw [SortedMap.find?_insert_of_ne he, h name i]
    constructor
    · exact .inl
    · rintro (hi | ⟨-, hi⟩)
      · exact hi
      · exact absurd hi.symm he

end Indexed

end Registry

end SlashCommands
