import SlashCommands.Payload.Wire
import SlashCommands.Proofs.SortedEntries

/-!
# Records as JSON

A record is written as the fields that hold something (`Json.written`), and reading it gives for
each of its names what was written there, or nothing (`Json.record?_written`). What each kind of
field does with what it is given undoes how the field is written, so a record comes back if its
fields do. Nothing that is written is empty, false or null (`Json.terse_written`).
-/

namespace SlashCommands

/-! ## Sorted maps -/

namespace SortedMap

variable {α β : Type} [Ord α]

theorem eq_empty_of_isEmpty {m : SortedMap α β} (h : m.isEmpty = true) : m = .empty :=
  SortedMap.ext (List.isEmpty_iff.1 h)

theorem insertEntry_of_gt {key : α} {value : β} : ∀ {es : List (α × β)},
    (∀ e ∈ es, compare key e.1 = .gt) → insertEntry key value es = es ++ [(key, value)]
  | [], _ => rfl
  | e :: es, h => by
    rw [insertEntry, h e List.mem_cons_self, List.cons_append,
      ← insertEntry_of_gt fun x hx => h x (List.mem_cons_of_mem _ hx)]

variable [Std.TransOrd α] [Std.LawfulEqOrd α]

theorem entries_insertAll : ∀ {es : List (α × β)} {m : SortedMap α β},
    ((m.entries ++ es).Pairwise fun a b => compare a.1 b.1 = .lt) →
      (m.insertAll es).entries = m.entries ++ es
  | [], _, _ => by simp [insertAll]
  | e :: es, m, h => by
    have hlast : (m.insert e.1 e.2).entries = m.entries ++ [e] := insertEntry_of_gt fun x hx =>
      Std.OrientedCmp.gt_iff_lt.2 ((List.pairwise_append.1 h).2.2 x hx e List.mem_cons_self)
    rw [List.append_cons, ← hlast] at h ⊢
    exact entries_insertAll h

/-- A map is filled again from its own entries. -/
theorem ofList_entries (m : SortedMap α β) : ofList m.entries = m :=
  SortedMap.ext (entries_insertAll m.sorted)

end SortedMap

namespace Json

/-! ## Records -/

/-- The fields of a record; what is not there is left out. -/
def written (parts : List (String × Option Json)) : List (String × Json) :=
  parts.filterMap fun part => part.2.map fun value => (part.1, value)

/-- What is written for a field that may be empty. -/
def partUnless (isEmpty : Bool) (value : Json) : Option Json :=
  if isEmpty then none else some value

theorem written_nil : written [] = [] :=
  rfl

theorem written_cons_some {name : String} {value : Json} {parts : List (String × Option Json)} :
    written ((name, some value) :: parts) = (name, value) :: written parts :=
  rfl

theorem written_cons_partUnless {isEmpty : Bool} {name : String} {value : Json}
    {parts : List (String × Option Json)} :
    written ((name, partUnless isEmpty value) :: parts)
      = fieldUnless isEmpty name value ++ written parts := by
  cases isEmpty <;> rfl

theorem written_cons_map {α : Type} {name : String} {write : α → Json} {x? : Option α}
    {parts : List (String × Option Json)} :
    written ((name, x?.map write) :: parts) = optionalField name write x? ++ written parts := by
  cases x? <;> rfl

theorem mem_written {field : String × Json} {parts : List (String × Option Json)} :
    field ∈ written parts ↔ (field.1, some field.2) ∈ parts := by
  rw [written, List.mem_filterMap]
  constructor
  · rintro ⟨⟨name, value?⟩, hp, hv⟩
    obtain ⟨value, rfl, rfl⟩ := Option.map_eq_some_iff.1 hv
    exact hp
  · intro h
    exact ⟨_, h, rfl⟩

section Read

variable {parts : List (String × Option Json)} (hn : (parts.map (·.1)).Nodup)

include hn

theorem nodup_names_written : ((written parts).map (·.1)).Nodup := by
  refine hn.sublist ?_
  clear hn
  induction parts with
  | nil => exact .refl _
  | cons part parts ih =>
    obtain ⟨name, _ | value⟩ := part
    · exact ih.cons name
    · exact ih.cons_cons name

theorem occursOnce_written (name : String) : occursOnce (written parts) name = true := by
  have hcount := List.nodup_iff_count_le_one.1 (nodup_names_written hn) name
  rw [List.count, List.countP_map, List.countP_eq_length_filter] at hcount
  exact decide_eq_true hcount

theorem lookup_written {part : String × Option Json} (hp : part ∈ parts) :
    lookup (written parts) part.1 = part.2 := by
  have hfind : ∀ value, lookup (written parts) part.1 = some value ↔ part.2 = some value := by
    intro value
    constructor
    · intro h
      obtain ⟨field, hf, rfl⟩ := Option.map_eq_some_iff.1 h
      have hname : field.1 = part.1 := by simpa using List.find?_some hf
      have hm := mem_written.1 (List.mem_of_find?_eq_some hf)
      rw [← List.inj_on_of_nodup_map hn hm hp hname]
    · intro h
      have hm : (part.1, value) ∈ written parts := mem_written.2 (by rwa [← h])
      obtain ⟨field, hf⟩ := Option.isSome_iff_exists.1 (List.find?_isSome
        (p := fun field : String × Json => field.1 == part.1).2 ⟨_, hm, by simp⟩)
      have hname : field.1 = part.1 := by simpa using List.find?_some hf
      rw [lookup, hf, List.inj_on_of_nodup_map (nodup_names_written hn)
        (List.mem_of_find?_eq_some hf) hm hname]
      rfl
  exact Option.ext hfind

end Read

theorem record?_written {parts : List (String × Option Json)} {names : List String}
    (hp : parts.map (·.1) = names) (hn : names.Nodup) :
    (obj (written parts)).record? names = some (parts.map (·.2)) := by
  subst hp
  have hall : (parts.map (·.1)).all (occursOnce (written parts)) = true :=
    List.all_eq_true.2 fun name _ => occursOnce_written hn name
  rw [record?, if_pos hall, List.map_map]
  exact congrArg some (List.map_congr_left fun part hm => lookup_written hn hm)

/-! ## Fields -/

section Fields

variable {α : Type} {read : Json → Option α} {write : α → Json} {x default : α}

/-- A field that was read; the others follow. -/
theorem bind_of_some {β : Type} {x? : Option α} {f : α → Option β} {y : β} (hx : x? = some x)
    (hf : f x = some y) : (x? >>= f) = some y := by
  rw [hx]
  exact hf

theorem orElse_partUnless {isEmpty : Bool} {value : Json} (hd : isEmpty = true → x = default)
    (hr : read value = some x) : orElse read default (partUnless isEmpty value) = some x := by
  cases isEmpty with
  | true => rw [hd rfl]; rfl
  | false => exact hr

theorem orNone_map {x? : Option α} (h : ∀ x ∈ x?, write x ≠ null ∧ read (write x) = some x) :
    orNone read (x?.map write) = some x? := by
  cases x? with
  | none => rfl
  | some x =>
    obtain ⟨hnull, hr⟩ := h x rfl
    rw [Option.map_some]
    rcases hw : write x <;> simp_all [orNone]

theorem mapM_map {β : Type} {f : β → Option α} {g : α → β} :
    ∀ {xs : List α}, (∀ x ∈ xs, f (g x) = some x) → (xs.map g).mapM f = some xs
  | [], _ => rfl
  | x :: xs, h => by
    have ih := mapM_map fun y hy => h y (List.mem_cons_of_mem _ hy)
    simp [List.mapM_cons, h x List.mem_cons_self, ih]

theorem readList_map {xs : List α} (h : ∀ x ∈ xs, read (write x) = some x) :
    readList read (.arr (xs.map write)) = some xs :=
  mapM_map h

theorem readMap_ofMap {m : SortedMap String α} (h : ∀ e ∈ m.entries, read (write e.2) = some e.2) :
    readMap read (ofMap write m) = some m := by
  have he : (m.entries.map fun e => (e.1, write e.2)).mapM
      (fun field => (read field.2).map fun value => (field.1, value)) = some m.entries :=
    mapM_map fun e he => by simp [h e he]
  rw [ofMap, readMap, he]
  exact congrArg some m.ofList_entries

end Fields

theorem ofBinary64_of_isFinite {x : Binary64} (h : x.isFinite = true) :
    ofBinary64 x = .float x := by
  rw [ofBinary64, if_pos h]

theorem readBelow_ofNat {limit n : Nat} (h : n < limit) :
    readBelow limit (.int n) = some n := by
  rw [readBelow, if_pos ⟨Int.natCast_nonneg n, by exact_mod_cast h⟩]
  rfl

/-! ## What is left out -/

/-- Nothing in the value, however deep, is null, false, an empty list or an empty record. -/
inductive Terse : Json → Prop
  | bool : Terse (.bool true)
  | int (value : Int) : Terse (.int value)
  | float (value : Binary64) : Terse (.float value)
  | str (value : String) : Terse (.str value)
  | arr {items : List Json} (hne : items ≠ []) (h : ∀ item ∈ items, Terse item) :
    Terse (.arr items)
  | obj {fields : List (String × Json)} (hne : fields ≠ []) (h : ∀ field ∈ fields, Terse field.2) :
    Terse (.obj fields)

theorem Terse.ne_null {value : Json} (h : value.Terse) : value ≠ null := by
  rintro rfl
  cases h

theorem terse_written {name : String} {value : Json} {parts : List (String × Option Json)}
    (h : ∀ part ∈ (name, some value) :: parts, ∀ value ∈ part.2, Terse value) :
    Terse (.obj (written ((name, some value) :: parts))) :=
  .obj (List.cons_ne_nil _ _) fun field hf => h _ (mem_written.1 hf) field.2 rfl

theorem terse_some {value : Json} (h : Terse value) : ∀ v ∈ some value, Terse v := by
  rintro v ⟨⟩
  exact h

theorem terse_partUnless {isEmpty : Bool} {value : Json} (h : isEmpty = false → Terse value) :
    ∀ v ∈ partUnless isEmpty value, Terse v := by
  cases isEmpty with
  | true => rintro v ⟨⟩
  | false =>
    rintro v ⟨⟩
    exact h rfl

/-- A flag is left out unless it is set. -/
theorem terse_partUnless_not {flag : Bool} : ∀ v ∈ partUnless (!flag) (.bool flag), Terse v := by
  cases flag with
  | true => exact terse_some .bool
  | false => rintro v ⟨⟩

theorem terse_map {α : Type} {write : α → Json} {x? : Option α} (h : ∀ x ∈ x?, Terse (write x)) :
    ∀ v ∈ x?.map write, Terse v := by
  intro v hv
  obtain ⟨x, hx, rfl⟩ := Option.map_eq_some_iff.1 hv
  exact h x hx

theorem terse_list {α : Type} {write : α → Json} {xs : List α} (hne : xs.isEmpty = false)
    (h : ∀ x ∈ xs, Terse (write x)) : Terse (.arr (xs.map write)) := by
  refine .arr (fun he => ?_) (List.forall_mem_map.2 h)
  rw [List.map_eq_nil_iff.1 he] at hne
  cases hne

theorem terse_ofMap {α : Type} {write : α → Json} {m : SortedMap String α} (hne : m.isEmpty = false)
    (h : ∀ e ∈ m.entries, Terse (write e.2)) : Terse (ofMap write m) := by
  refine .obj (fun he => ?_) (List.forall_mem_map.2 h)
  rw [SortedMap.isEmpty, List.map_eq_nil_iff.1 he] at hne
  cases hne

/-! ## Depth -/

theorem depth_le_of_mem : ∀ {items : List Json} {item : Json}, item ∈ items →
    item.depth ≤ depthItems items
  | first :: rest, item, h => by
    rcases List.mem_cons.1 h with rfl | h
    · exact Nat.le_max_left _ _
    · exact Nat.le_trans (depth_le_of_mem h) (Nat.le_max_right _ _)

theorem depth_le_of_mem_fields : ∀ {fields : List (String × Json)} {field : String × Json},
    field ∈ fields → field.2.depth ≤ depthFields fields
  | first :: rest, field, h => by
    rcases List.mem_cons.1 h with rfl | h
    · exact Nat.le_max_left _ _
    · exact Nat.le_trans (depth_le_of_mem_fields h) (Nat.le_max_right _ _)

end Json

end SlashCommands
