import SlashCommands.Proofs.SealedCommand

/-!
# Seats of a table of routes

A table of routes has a seat for each path and one for all other paths. The key of an entry says
which seat it takes (`Draft.seat?`), whatever stands in the table by then. So a table is made of
entries exactly if each has a seat and no two the same (`Draft.exists_table_iff`), which has nothing
to do with their order, and in the end every entry stands in its seat and nothing else does
(`Draft.at?_of_foldlM`).
-/

namespace SlashCommands

open Checked

variable {η : Type}

/-- Where a handler can stand in a table of routes. -/
inductive Seat
  | path (p : Path)
  | fallback
deriving DecidableEq

namespace RouteTable

variable {table : RouteTable η} {seat other : Seat} {a : η}

/-- The handler that has taken a seat. -/
def at? (table : RouteTable η) : Seat → Option η
  | .path p => table.get? p
  | .fallback => table.fallback

/-- The table with one handler more. -/
def put (table : RouteTable η) (seat : Seat) (handler : η) : RouteTable η :=
  match seat with
  | .path p => { table with routes := table.routes ++ [(p, handler)] }
  | .fallback => { table with fallback := some handler }

theorem at?_empty (seat : Seat) : (empty : RouteTable η).at? seat = none := by
  rcases seat <;> rfl

theorem at?_put_self (h : table.at? seat = none) : (table.put seat a).at? seat = some a := by
  cases seat with
  | fallback => rfl
  | path p =>
    have hf : table.routes.find? (fun route => route.1 == p) = none := by
      simpa [at?, get?] using h
    simp [put, at?, get?, List.find?_append, hf]

theorem at?_put_of_ne (h : other ≠ seat) : (table.put seat a).at? other = table.at? other := by
  rcases seat with p | _ <;> rcases other with q | _
  · have hne : (p == q) = false := by
      simpa using fun he : p = q => h (by rw [he])
    simp [put, at?, get?, List.find?_append, hne]
  · rfl
  · rfl
  · exact absurd rfl h

end RouteTable

namespace Draft

open RouteTable

variable {t : Tree} {table table' : RouteTable η} {routes : List (String × η)} {key : String}
  {seat : Seat} {p : Path}

/-- The seat that the entry of a key takes; a key that leads nowhere in the tree has none. -/
def seat? (t : Tree) (key : String) : Option Seat :=
  if Reference.isDefault key then some .fallback
  else match routePath t key with
    | .ok p => if t.contains p then some (.path p) else none
    | .error _ => none

theorem seat?_eq_fallback_iff :
    seat? t key = some .fallback ↔ Reference.isDefault key = true := by
  rw [seat?]
  rcases Reference.isDefault key
  · rcases routePath t key with fault | q
    · simp
    · rcases hc : t.contains q <;> simp [hc]
  · simp

theorem seat?_eq_path_iff :
    seat? t key = some (.path p) ↔
      Reference.isDefault key = false ∧ routePath t key = .ok p ∧ t.contains p = true := by
  rw [seat?]
  rcases Reference.isDefault key
  · rcases routePath t key with fault | q
    · simp
    · rcases hc : t.contains q
      · simp only [Bool.false_eq_true, if_false, hc, reduceCtorEq, Except.ok.injEq, true_and,
          false_iff, not_and]
        rintro rfl
        simp [hc]
      · simp only [Bool.false_eq_true, if_false, hc, if_true, Option.some.injEq, Seat.path.injEq,
          Except.ok.injEq, true_and]
        exact ⟨fun h => ⟨h, h ▸ hc⟩, fun h => h.1⟩
  · simp

/-- An entry is taken if it has a seat and nobody sits there. -/
theorem addRoute_ok_iff {entry : String × η} :
    addRoute t table entry = .ok table' ↔
      ∃ seat, seat? t entry.1 = some seat ∧ table.at? seat = none
        ∧ table' = table.put seat entry.2 := by
  rcases entry with ⟨key, handler⟩
  rw [addRoute]
  dsimp only
  rcases hd : Reference.isDefault key
  · simp only [Bool.false_eq_true, if_false, bind_ok_iff, exists_unit_ok_iff, Check.known_ok_iff,
      Check.notDuplicate_ok_iff, pure_ok_iff]
    constructor
    · rintro ⟨p, hp, hc, hn, rfl⟩
      refine ⟨.path p, seat?_eq_path_iff.2 ⟨hd, hp, hc⟩, ?_, rfl⟩
      rwa [contains, Option.isSome_eq_false_iff, Option.isNone_iff_eq_none] at hn
    · rintro ⟨p | _, hs, hn, rfl⟩
      · obtain ⟨-, hp, hc⟩ := seat?_eq_path_iff.1 hs
        refine ⟨p, hp, hc, ?_, rfl⟩
        rwa [contains, Option.isSome_eq_false_iff, Option.isNone_iff_eq_none]
      · rw [seat?_eq_fallback_iff, hd] at hs
        cases hs
  · have hseat : seat? t key = some .fallback := seat?_eq_fallback_iff.2 hd
    simp only [if_true, bind_ok_iff, exists_unit_ok_iff, Check.notDuplicate_ok_iff, pure_ok_iff,
      hseat, Option.some.injEq, exists_eq_left', Option.isSome_eq_false_iff,
      Option.isNone_iff_eq_none, eq_comm (a := table')]
    rfl

/-- Each entry has a seat that is free, and no two entries have the same. -/
structure Seated (t : Tree) (table : RouteTable η) (routes : List (String × η)) : Prop where
  free : ∀ e ∈ routes, ∃ seat, seat? t e.1 = some seat ∧ table.at? seat = none
  distinct : (routes.map fun e => seat? t e.1).Nodup

theorem Seated.perm {routes' : List (String × η)} (h : Seated t table routes)
    (hp : routes.Perm routes') : Seated t table routes' where
  free e he := h.free e (hp.mem_iff.2 he)
  distinct := (hp.map _).nodup_iff.1 h.distinct

theorem seated_cons_iff {e : String × η} :
    Seated t table (e :: routes) ↔
      ∃ seat, seat? t e.1 = some seat ∧ table.at? seat = none
        ∧ Seated t (table.put seat e.2) routes := by
  constructor
  · intro h
    obtain ⟨seat, hs, hn⟩ := h.free e List.mem_cons_self
    obtain ⟨hne, hd⟩ := List.nodup_cons.1 h.distinct
    refine ⟨seat, hs, hn, fun f hf => ?_, hd⟩
    obtain ⟨other, ho, hfree⟩ := h.free f (List.mem_cons_of_mem _ hf)
    have hother : other ≠ seat := by
      rintro rfl
      exact hne (List.mem_map.2 ⟨f, hf, ho.trans hs.symm⟩)
    exact ⟨other, ho, (at?_put_of_ne hother).trans hfree⟩
  · rintro ⟨seat, hs, hn, h⟩
    -- the seat of the first entry is not free for the others
    have hother : ∀ f ∈ routes, ∃ other, seat? t f.1 = some other ∧ other ≠ seat
        ∧ table.at? other = none := by
      intro f hf
      obtain ⟨other, ho, hfree⟩ := h.free f hf
      have hne : other ≠ seat := by
        rintro rfl
        rw [at?_put_self hn] at hfree
        cases hfree
      exact ⟨other, ho, hne, (at?_put_of_ne hne).symm.trans hfree⟩
    refine ⟨List.forall_mem_cons.2 ⟨⟨seat, hs, hn⟩, fun f hf => ?_⟩,
      List.nodup_cons.2 ⟨fun hm => ?_, h.distinct⟩⟩
    · obtain ⟨other, ho, -, hfree⟩ := hother f hf
      exact ⟨other, ho, hfree⟩
    · obtain ⟨f, hf, he⟩ := List.mem_map.1 hm
      obtain ⟨other, ho, hne, -⟩ := hother f hf
      exact hne (Option.some.inj (ho.symm.trans (he.trans hs)))

/-- Entries make a table exactly if there is a seat for each of them. -/
theorem exists_table_iff : ∀ {routes : List (String × η)} {table : RouteTable η},
    (∃ table', routes.foldlM (addRoute t) table = .ok table') ↔ Seated t table routes
  | [], table => ⟨fun _ => ⟨by simp, List.nodup_nil⟩, fun _ => ⟨table, rfl⟩⟩
  | e :: routes, table => by
    simp only [List.foldlM_cons, bind_ok_iff, addRoute_ok_iff, seated_cons_iff]
    constructor
    · rintro ⟨table', -, ⟨seat, hs, hn, rfl⟩, h⟩
      exact ⟨seat, hs, hn, exists_table_iff.1 ⟨table', h⟩⟩
    · rintro ⟨seat, hs, hn, h⟩
      obtain ⟨table', h⟩ := exists_table_iff.2 h
      exact ⟨table', _, ⟨seat, hs, hn, rfl⟩, h⟩

/-- What sits in a seat sat there before or is the entry that takes it. -/
theorem at?_of_foldlM_from : ∀ {routes : List (String × η)} {table : RouteTable η},
    routes.foldlM (addRoute t) table = .ok table' → ∀ {seat : Seat} {a : η},
      (table'.at? seat = some a ↔
        table.at? seat = some a ∨ ∃ e ∈ routes, seat? t e.1 = some seat ∧ e.2 = a)
  | [], table, h, seat, a => by
    rw [List.foldlM_nil, pure_ok_iff] at h
    simp [h]
  | e :: routes, table, h, seat, a => by
    rw [List.foldlM_cons, bind_ok_iff] at h
    obtain ⟨next, hnext, h⟩ := h
    obtain ⟨taken, hs, hn, rfl⟩ := addRoute_ok_iff.1 hnext
    have hput : (table.put taken e.2).at? seat = some a ↔
        table.at? seat = some a ∨ seat? t e.1 = some seat ∧ e.2 = a := by
      rw [hs, Option.some.injEq]
      by_cases he : seat = taken
      · subst he
        simp [at?_put_self hn, hn]
      · simp [at?_put_of_ne he, Ne.symm he]
    rw [at?_of_foldlM_from h, hput, or_assoc]
    simp only [List.mem_cons, exists_eq_or_imp]

theorem at?_of_foldlM (h : routes.foldlM (addRoute t) .empty = .ok table) {a : η} :
    table.at? seat = some a ↔ ∃ e ∈ routes, seat? t e.1 = some seat ∧ e.2 = a := by
  simp [at?_of_foldlM_from h, at?_empty]

end Draft

end SlashCommands
