/-!
# Finite maps in key order

A `SortedMap` lists its entries in strictly ascending key order, so equal maps are equal lists. A
`SortedSet` is a map to the unit. `insert` and `erase` keep the order; `ofList` inserts from left to
right, so the last entry of a key stays.
-/

namespace SlashCommands

/-- A finite map whose entries stand in strictly ascending key order. -/
structure SortedMap (α β : Type) [Ord α] where
  entries : List (α × β)
  sorted : entries.Pairwise fun a b => compare a.1 b.1 = .lt

namespace SortedMap

variable {α β : Type} [Ord α]

@[ext]
theorem ext {m n : SortedMap α β} (h : m.entries = n.entries) : m = n := by
  cases m; cases n; cases h; rfl

instance [DecidableEq α] [DecidableEq β] : DecidableEq (SortedMap α β) := fun m n =>
  decidable_of_iff (m.entries = n.entries) ⟨ext, fun h => h ▸ rfl⟩

/-- The map without entries. -/
def empty : SortedMap α β :=
  ⟨[], .nil⟩

instance : Inhabited (SortedMap α β) := ⟨empty⟩

/-- Whether no key is there. -/
def isEmpty (m : SortedMap α β) : Bool :=
  m.entries.isEmpty

/-- The keys in ascending order. -/
def keys (m : SortedMap α β) : List α :=
  m.entries.map (·.1)

/-- The value under a key. -/
def find? (m : SortedMap α β) (key : α) : Option β :=
  (m.entries.find? fun e => compare key e.1 == .eq).map (·.2)

/-- Whether a key is there. -/
def contains (m : SortedMap α β) (key : α) : Bool :=
  (m.find? key).isSome

/-- Puts an entry in its place of a sorted list, in the stead of an entry with the same key. -/
def insertEntry (key : α) (value : β) : List (α × β) → List (α × β)
  | [] => [(key, value)]
  | e :: es =>
    match compare key e.1 with
    | .lt => (key, value) :: e :: es
    | .eq => (key, value) :: es
    | .gt => e :: insertEntry key value es

theorem mem_insertEntry {key : α} {value : β} {x : α × β} :
    ∀ {es : List (α × β)}, x ∈ insertEntry key value es → x = (key, value) ∨ x ∈ es
  | [], h => .inl (by simpa [insertEntry] using h)
  | e :: es, h => by
    unfold insertEntry at h
    split at h
    · rcases List.mem_cons.1 h with h | h
      · exact .inl h
      · exact .inr h
    · rcases List.mem_cons.1 h with h | h
      · exact .inl h
      · exact .inr (List.mem_cons_of_mem _ h)
    · rcases List.mem_cons.1 h with h | h
      · exact .inr (h ▸ List.mem_cons_self)
      · exact (mem_insertEntry h).imp_right (List.mem_cons_of_mem _)

variable [Std.TransOrd α] [Std.LawfulEqOrd α]

theorem sorted_insertEntry (key : α) (value : β) :
    ∀ {es : List (α × β)}, es.Pairwise (fun a b => compare a.1 b.1 = .lt) →
      (insertEntry key value es).Pairwise fun a b => compare a.1 b.1 = .lt
  | [], _ => List.pairwise_singleton _ _
  | e :: es, h => by
    have hs := List.pairwise_cons.1 h
    unfold insertEntry
    split <;> rename_i hc
    · refine List.pairwise_cons.2 ⟨fun x hx => ?_, h⟩
      rcases List.mem_cons.1 hx with rfl | hx
      · exact hc
      · exact Std.TransCmp.lt_trans hc (hs.1 x hx)
    · refine List.pairwise_cons.2 ⟨fun x hx => ?_, hs.2⟩
      rw [Std.LawfulEqCmp.eq_of_compare hc]
      exact hs.1 x hx
    · refine List.pairwise_cons.2 ⟨fun x hx => ?_, sorted_insertEntry key value hs.2⟩
      rcases mem_insertEntry hx with rfl | hx
      · exact Std.OrientedCmp.gt_iff_lt.1 hc
      · exact hs.1 x hx

/-- Sets the value under a key, whatever was there before. -/
def insert (m : SortedMap α β) (key : α) (value : β) : SortedMap α β :=
  ⟨insertEntry key value m.entries, sorted_insertEntry key value m.sorted⟩

omit [Std.TransOrd α] [Std.LawfulEqOrd α] in
theorem sorted_filter (keep : α × β → Bool) {es : List (α × β)}
    (h : es.Pairwise fun a b => compare a.1 b.1 = .lt) :
    (es.filter keep).Pairwise fun a b => compare a.1 b.1 = .lt :=
  h.sublist List.filter_sublist

/-- Takes a key out. -/
def erase (m : SortedMap α β) (key : α) : SortedMap α β :=
  ⟨m.entries.filter fun e => compare key e.1 != .eq, sorted_filter _ m.sorted⟩

/-- Inserts the entries from left to right. -/
def insertAll (m : SortedMap α β) (entries : List (α × β)) : SortedMap α β :=
  entries.foldl (fun acc e => acc.insert e.1 e.2) m

/-- The map of a list of entries. The last one of a key is kept. -/
def ofList (entries : List (α × β)) : SortedMap α β :=
  empty.insertAll entries

end SortedMap

/-- A finite set, listed in strictly ascending order. -/
abbrev SortedSet (α : Type) [Ord α] := SortedMap α Unit

namespace SortedSet

variable {α : Type} [Ord α]

/-- The elements in ascending order. -/
def toList (s : SortedSet α) : List α :=
  s.keys

variable [Std.TransOrd α] [Std.LawfulEqOrd α]

/-- The set with one more element. -/
def add (s : SortedSet α) (x : α) : SortedSet α :=
  s.insert x ()

/-- The set with all elements of a list. -/
def addAll (s : SortedSet α) (xs : List α) : SortedSet α :=
  xs.foldl add s

/-- The set of the elements of a list. -/
def ofList (xs : List α) : SortedSet α :=
  addAll .empty xs

end SortedSet

end SlashCommands
