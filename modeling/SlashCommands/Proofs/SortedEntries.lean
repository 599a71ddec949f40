import Mathlib.Data.List.Nodup
import SlashCommands.Data.SortedMap

/-!
# Entries of sorted maps

A key is found exactly if it has an entry (`find?_eq_some_iff`), no key has two (`keys_nodup`), and
an insertion changes what is found under its own key only (`find?_insert_of_ne`). A set that was
filled from lists has their elements and no others (`SortedSet.mem_addAll`).
-/

namespace SlashCommands

namespace SortedMap

variable {α β : Type} [Ord α]

theorem isEmpty_iff {m : SortedMap α β} : m.isEmpty = true ↔ m.keys = [] := by
  simp [isEmpty, keys]

theorem keys_sorted (m : SortedMap α β) : m.keys.Pairwise fun a b => compare a b = .lt :=
  List.pairwise_map.2 m.sorted

variable [Std.LawfulEqOrd α]

theorem keys_nodup (m : SortedMap α β) : m.keys.Nodup := by
  rw [keys, List.nodup_iff_pairwise_ne, List.pairwise_map]
  refine m.sorted.imp fun {a b} hab he => ?_
  rw [Std.compare_eq_iff_eq.2 he] at hab
  cases hab

theorem find?_eq_some_iff {m : SortedMap α β} {key : α} {value : β} :
    m.find? key = some value ↔ (key, value) ∈ m.entries := by
  constructor
  · intro h
    obtain ⟨e, he, rfl⟩ := Option.map_eq_some_iff.1 h
    obtain rfl : key = e.1 := by simpa using List.find?_some he
    exact List.mem_of_find?_eq_some he
  · intro h
    obtain ⟨e, he⟩ := Option.isSome_iff_exists.1
      (List.find?_isSome (p := fun e => compare key e.1 == .eq).2 ⟨(key, value), h, by simp⟩)
    have hk : key = e.1 := by simpa using List.find?_some he
    have := List.inj_on_of_nodup_map m.keys_nodup h (List.mem_of_find?_eq_some he) hk
    rw [find?, he, ← this]
    rfl

theorem contains_iff {m : SortedMap α β} {key : α} : m.contains key = true ↔ key ∈ m.keys := by
  simp only [contains, Option.isSome_iff_exists, find?_eq_some_iff, keys, List.mem_map]
  exact ⟨fun ⟨value, h⟩ => ⟨_, h, rfl⟩, fun ⟨e, h, he⟩ => ⟨e.2, he ▸ h⟩⟩

theorem find?_insertEntry_self (key : α) (value : β) :
    ∀ es : List (α × β), ((insertEntry key value es).find? fun e => compare key e.1 == .eq)
      = some (key, value)
  | [] => by simp [insertEntry]
  | e :: es => by
    rw [insertEntry]
    split <;> rename_i hc
    · simp
    · simp
    · simp [hc, find?_insertEntry_self key value es]

theorem find?_insertEntry_of_ne {key other : α} (h : other ≠ key) (value : β) :
    ∀ es : List (α × β), ((insertEntry key value es).find? fun e => compare other e.1 == .eq)
      = es.find? fun e => compare other e.1 == .eq
  | [] => by simp [insertEntry, h]
  | e :: es => by
    rw [insertEntry]
    split <;> rename_i hc
    · simp [h]
    · rw [Std.compare_eq_iff_eq] at hc
      simp [← hc, h]
    · simp only [List.find?_cons, find?_insertEntry_of_ne h value es]

variable [Std.TransOrd α]

@[simp]
theorem find?_insert_self (m : SortedMap α β) (key : α) (value : β) :
    (m.insert key value).find? key = some value := by
  rw [find?, insert, find?_insertEntry_self]
  rfl

theorem find?_insert_of_ne {key other : α} (h : other ≠ key) (m : SortedMap α β) (value : β) :
    (m.insert key value).find? other = m.find? other := by
  rw [find?, insert, find?_insertEntry_of_ne h]
  rfl

theorem mem_keys_insert {m : SortedMap α β} {key other : α} {value : β} :
    other ∈ (m.insert key value).keys ↔ other = key ∨ other ∈ m.keys := by
  rw [← contains_iff, ← contains_iff, contains, contains]
  by_cases h : other = key
  · simp [h]
  · simp [find?_insert_of_ne h, h]

theorem mem_insert {m : SortedMap α β} {key : α} {value : β} {e : α × β}
    (h : e ∈ (m.insert key value).entries) : e = (key, value) ∨ e ∈ m.entries :=
  mem_insertEntry h

theorem mem_insertAll {e : α × β} :
    ∀ {es : List (α × β)} {m : SortedMap α β}, e ∈ (m.insertAll es).entries →
      e ∈ es ∨ e ∈ m.entries
  | [], _, h => .inr h
  | x :: es, m, h => by
    rcases mem_insertAll (m := m.insert x.1 x.2) h with h | h
    · exact .inl (List.mem_cons_of_mem _ h)
    · rcases mem_insert h with rfl | h
      · exact .inl List.mem_cons_self
      · exact .inr h

end SortedMap

/-- What a fold gathers, if each step gathers what belongs to its element. -/
theorem gathered_foldl_iff {σ α : Type} {f : σ → α → σ} {g : σ → Prop} {p : α → Prop}
    (hf : ∀ b x, g (f b x) ↔ g b ∨ p x) :
    ∀ (xs : List α) (b : σ), g (xs.foldl f b) ↔ g b ∨ ∃ x ∈ xs, p x
  | [], b => by simp
  | x :: xs, b => by
    rw [List.foldl_cons, gathered_foldl_iff hf xs, hf, or_assoc, List.exists_mem_cons_iff]

namespace SortedSet

variable {α : Type} [Ord α] [Std.TransOrd α] [Std.LawfulEqOrd α]

theorem mem_add {s : SortedSet α} {x y : α} : x ∈ (add s y).toList ↔ x ∈ s.toList ∨ x = y := by
  rw [add, toList, SortedMap.mem_keys_insert, or_comm, toList]

theorem mem_addAll {s : SortedSet α} {xs : List α} {x : α} :
    x ∈ (addAll s xs).toList ↔ x ∈ s.toList ∨ x ∈ xs := by
  have h := gathered_foldl_iff (f := add) (g := fun s : SortedSet α => x ∈ s.toList)
    (fun _ _ => mem_add) xs s
  simpa [addAll] using h

theorem mem_ofList {xs : List α} {x : α} : x ∈ (ofList xs).toList ↔ x ∈ xs := by
  rw [ofList, mem_addAll]
  exact or_iff_right List.not_mem_nil

/-- Sets with the same elements list them in the same order. -/
theorem eq_of_mem_iff {s t : SortedSet α} (h : ∀ x, x ∈ s.toList ↔ x ∈ t.toList) : s = t := by
  have hperm := (List.perm_ext_iff_of_nodup s.keys_nodup t.keys_nodup).2 h
  have hkeys : s.keys = t.keys := by
    refine hperm.eq_of_pairwise (fun a b _ _ hab hba => ?_) s.keys_sorted t.keys_sorted
    rw [Std.OrientedCmp.gt_iff_lt.2 hba] at hab
    cases hab
  have hfst : Function.Injective fun e : α × Unit => e.1 := fun _ _ he => Prod.ext he rfl
  exact SortedMap.ext (List.map_injective_iff.2 hfst hkeys)

end SortedSet

end SlashCommands
