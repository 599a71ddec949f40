import Mathlib.Data.List.Perm.Basic
import SlashCommands.Proofs.TreeViews

/-!
# The slots of callbacks

The key of a callback names the slot that it is stored in, whatever is stored by then
(`Draft.slot?`). So callbacks are stored exactly if each of their keys names a slot and no two the
same (`Draft.resolveCallbacks_ok_iff`), in their order, which nothing else depends on
(`Draft.Filed.perm`, `Draft.Filed.find?_eq_some_iff`). The slots themselves are found again by going
through the nodes of the tree, each once (`Tree.Sound.mem_starred_iff`,
`Tree.Sound.nodup_starred`), so the arguments that are reported are those without a callback
(`Draft.missingCallbacks_eq`).
-/

namespace SlashCommands

open Checked

/-! ## Storing callbacks -/

namespace Draft

variable {κ : Type} {t : Tree} {slot : Slot} {key : String} {stored stored' : List (Slot × κ)}
  {entries entries' : List (String × κ)} {callback : κ}

/-- The slot that the callback under a key takes: that of the starred argument the key names. -/
def slot? (t : Tree) (key : String) : Option Slot :=
  match Reference.resolve t key with
  | .ok (.argument path name) => if isStarred t (path, name) then some (path, name) else none
  | _ => none

theorem slot?_eq_some_iff :
    slot? t key = some slot ↔
      Reference.resolve t key = .ok (.argument slot.1 slot.2) ∧ isStarred t slot = true := by
  rcases slot with ⟨path, name⟩
  rw [slot?]
  rcases Reference.resolve t key with fault | target
  · simp
  rcases target with _ | group | p | ⟨p, n⟩
  · simp
  · simp
  · simp
  · simp only [Option.ite_none_right_eq_some, Option.some.injEq, Prod.mk.injEq, Except.ok.injEq,
      Target.argument.injEq]
    constructor
    · rintro ⟨hs, rfl, rfl⟩
      exact ⟨⟨rfl, rfl⟩, hs⟩
    · rintro ⟨⟨rfl, rfl⟩, hs⟩
      exact ⟨hs, rfl, rfl⟩

/-- A callback is taken if its key names a slot where none is stored. -/
theorem addCallback_ok_iff {entry : String × κ} :
    addCallback t stored entry = .ok stored' ↔
      ∃ slot, slot? t entry.1 = some slot ∧ slot ∉ stored.map (·.1)
        ∧ stored' = stored ++ [(slot, entry.2)] := by
  rcases entry with ⟨key, callback⟩
  simp only [addCallback, bind_ok_iff, slot?_eq_some_iff]
  constructor
  · rintro ⟨target, ht, hc⟩
    rcases target with _ | group | p | ⟨path, name⟩
    · cases hc
    · cases hc
    · cases hc
    simp only [bind_ok_iff, exists_unit_ok_iff, Check.rule_ok_iff, Check.notDuplicate_ok_iff,
      pure_ok_iff, Bool.not_eq_false'] at hc
    obtain ⟨hs, hn, rfl⟩ := hc
    exact ⟨(path, name), ⟨ht, hs⟩, any_beq_eq_false_iff.1 hn, rfl⟩
  · rintro ⟨⟨path, name⟩, ⟨ht, hs⟩, hn, rfl⟩
    refine ⟨_, ht, ?_⟩
    simp only [bind_ok_iff, exists_unit_ok_iff, Check.rule_ok_iff, Check.notDuplicate_ok_iff,
      pure_ok_iff, Bool.not_eq_false']
    exact ⟨hs, any_beq_eq_false_iff.2 hn, trivial⟩

/-- The callbacks stand in the slots that their keys name, in their order, no two in the same. -/
structure Filed (t : Tree) (entries : List (String × κ)) (stored : List (Slot × κ)) : Prop where
  each : List.Forall₂ (fun e c => slot? t e.1 = some c.1 ∧ e.2 = c.2) entries stored
  distinct : (stored.map (·.1)).Nodup

theorem foldlM_addCallback_ok_iff :
    ∀ {entries : List (String × κ)} {stored stored' : List (Slot × κ)},
      (stored.map (·.1)).Nodup → (entries.foldlM (addCallback t) stored = .ok stored' ↔
        ∃ added, stored' = stored ++ added
          ∧ List.Forall₂ (fun e c => slot? t e.1 = some c.1 ∧ e.2 = c.2) entries added
          ∧ (stored'.map (·.1)).Nodup)
  | [], stored, _, hn => by
    simp only [List.foldlM_nil, pure_ok_iff, List.forall₂_nil_left_iff]
    constructor
    · rintro rfl
      exact ⟨[], by simp, rfl, hn⟩
    · rintro ⟨added, rfl, rfl, -⟩
      simp
  | e :: entries, stored, _, hn => by
    simp only [List.foldlM_cons, bind_ok_iff, addCallback_ok_iff, List.forall₂_cons_left_iff]
    constructor
    · rintro ⟨next, ⟨slot, hs, hnew, rfl⟩, h⟩
      obtain ⟨added, rfl, hadded, hd⟩ :=
        (foldlM_addCallback_ok_iff (nodup_map_concat hn hnew)).1 h
      exact ⟨(slot, e.2) :: added, by simp, ⟨(slot, e.2), added, ⟨hs, rfl⟩, hadded, rfl⟩, hd⟩
    · rintro ⟨-, rfl, ⟨⟨slot, callback⟩, added, ⟨hs, hcb⟩, hadded, rfl⟩, hd⟩
      obtain rfl : e.2 = callback := hcb
      rw [List.append_cons] at hd ⊢
      have hnext : ((stored ++ [(slot, e.2)]).map (·.1)).Nodup := by
        rw [List.map_append] at hd
        exact (List.nodup_append.1 hd).1
      have hnew : slot ∉ stored.map (·.1) := by
        rw [List.map_append, List.nodup_append] at hnext
        exact fun hm => hnext.2.2 slot hm slot (by simp) rfl
      exact ⟨_, ⟨slot, hs, hnew, rfl⟩,
        (foldlM_addCallback_ok_iff hnext).2 ⟨added, rfl, hadded, hd⟩⟩

theorem filed_iff : entries.foldlM (addCallback t) [] = .ok stored ↔ Filed t entries stored := by
  have hempty : (([] : List (Slot × κ)).map (·.1)).Nodup := List.nodup_nil
  rw [foldlM_addCallback_ok_iff hempty]
  constructor
  · rintro ⟨added, rfl, hadded, hd⟩
    exact ⟨hadded, hd⟩
  · rintro ⟨hadded, hd⟩
    exact ⟨stored, rfl, hadded, hd⟩

theorem resolveCallbacks_ok_iff {d : Draft κ} :
    d.resolveCallbacks = .ok stored ↔ Filed d.tree d.callbacks stored :=
  filed_iff

/-! ## What is stored -/

namespace Filed

/-- There is a way to store the callbacks exactly if their keys name slots, no two the same. -/
theorem exists_iff :
    (∃ stored, Filed t entries stored) ↔
      (∀ e ∈ entries, (slot? t e.1).isSome = true) ∧ (entries.map fun e => slot? t e.1).Nodup := by
  have hmap : ∀ {stored : List (Slot × κ)},
      List.Forall₂ (fun e c => slot? t e.1 = some c.1 ∧ e.2 = c.2) entries stored →
        entries.map (fun e => slot? t e.1) = (stored.map (·.1)).map some := by
    intro stored h
    induction h with
    | nil => rfl
    | cons hec _ ih => rw [List.map_cons, ih, hec.1, List.map_cons, List.map_cons]
  constructor
  · rintro ⟨stored, h⟩
    refine ⟨fun e he => ?_, ?_⟩
    · have hm : slot? t e.1 ∈ (stored.map (·.1)).map some :=
        hmap h.each ▸ List.mem_map_of_mem he
      obtain ⟨slot, -, hs⟩ := List.mem_map.1 hm
      rw [← hs, Option.isSome_some]
    · rw [hmap h.each]
      exact h.distinct.map (Option.some_injective _)
  · rintro ⟨hsome, hd⟩
    have hfound : ∃ stored : List (Slot × κ),
        List.Forall₂ (fun e c => slot? t e.1 = some c.1 ∧ e.2 = c.2) entries stored := by
      clear hd hmap
      induction entries with
      | nil => exact ⟨[], .nil⟩
      | cons e entries ih =>
        rw [List.forall_mem_cons] at hsome
        obtain ⟨slot, hs⟩ := Option.isSome_iff_exists.1 hsome.1
        obtain ⟨stored, h⟩ := ih hsome.2
        exact ⟨(slot, e.2) :: stored, .cons ⟨hs, rfl⟩ h⟩
    obtain ⟨stored, h⟩ := hfound
    rw [hmap h] at hd
    exact ⟨stored, h, hd.of_map some⟩

/-- That is, exactly if they resolve to starred arguments, no two to the same. -/
theorem exists_iff_resolve :
    (∃ stored, Filed t entries stored) ↔
      (∀ e ∈ entries, ∃ path name, Reference.resolve t e.1 = .ok (.argument path name)
        ∧ isStarred t (path, name) = true)
      ∧ (entries.map fun e => Reference.resolve t e.1).Nodup := by
  have hsome : ∀ {e : String × κ}, (slot? t e.1).isSome = true ↔ ∃ path name,
      Reference.resolve t e.1 = .ok (.argument path name) ∧ isStarred t (path, name) = true := by
    intro e
    simp only [Option.isSome_iff_exists, slot?_eq_some_iff, Prod.exists]
  rw [exists_iff]
  simp only [hsome]
  refine and_congr_right fun hall => ?_
  rw [List.Nodup, List.pairwise_map, List.Nodup, List.pairwise_map]
  refine List.Pairwise.iff_of_mem fun {e f} he hf => not_congr ?_
  obtain ⟨p, n, hres, hstar⟩ := hall e he
  obtain ⟨q, m, hres', hstar'⟩ := hall f hf
  have hs : slot? t e.1 = some (p, n) := slot?_eq_some_iff.2 ⟨hres, hstar⟩
  have hs' : slot? t f.1 = some (q, m) := slot?_eq_some_iff.2 ⟨hres', hstar'⟩
  rw [hs, hs', hres, hres']
  simp

/-- The key of a stored callback names the slot that it resolves to. -/
theorem slot?_iff (h : Filed t entries stored) {e : String × κ} (he : e ∈ entries) :
    slot? t e.1 = some slot ↔ Reference.resolve t e.1 = .ok (.argument slot.1 slot.2) := by
  obtain ⟨taken, ht⟩ := Option.isSome_iff_exists.1 ((exists_iff.1 ⟨stored, h⟩).1 e he)
  rw [ht, (slot?_eq_some_iff.1 ht).1]
  rcases taken with ⟨p, n⟩
  rcases slot with ⟨q, m⟩
  simp

/-- In another order the same callbacks are stored in the same slots. -/
theorem perm (h : Filed t entries stored) (hp : entries'.Perm entries) :
    ∃ stored', Filed t entries' stored' ∧ stored'.Perm stored := by
  obtain ⟨stored', h', hp'⟩ := List.perm_comp_forall₂ hp h.each
  exact ⟨stored', ⟨h', (hp'.map _).nodup_iff.2 h.distinct⟩, hp'⟩

theorem mem_iff (h : Filed t entries stored) :
    (slot, callback) ∈ stored ↔ ∃ key, (key, callback) ∈ entries ∧ slot? t key = some slot := by
  have heach := h.each
  clear h
  induction heach with
  | nil => simp
  | @cons e c entries stored hec _ ih =>
    rcases e with ⟨key, cb⟩
    rcases c with ⟨s, cb'⟩
    obtain ⟨hs, rfl⟩ : slot? t key = some s ∧ cb = cb' := hec
    simp only [List.mem_cons, Prod.mk.injEq, ih]
    constructor
    · rintro (⟨rfl, rfl⟩ | ⟨key', hm, hk⟩)
      · exact ⟨key, .inl ⟨rfl, rfl⟩, hs⟩
      · exact ⟨key', .inr hm, hk⟩
    · rintro ⟨key', ⟨rfl, rfl⟩ | hm, hk⟩
      · exact .inl ⟨Option.some.inj (hk.symm.trans hs), rfl⟩
      · exact .inr ⟨key', hm, hk⟩

theorem find?_eq_some_iff (h : Filed t entries stored) :
    (stored.find? fun c => c.1 == slot).map (·.2) = some callback ↔
      ∃ key, (key, callback) ∈ entries ∧ slot? t key = some slot := by
  rw [← h.mem_iff, Option.map_eq_some_iff]
  constructor
  · rintro ⟨⟨s, cb⟩, hf, rfl⟩
    obtain rfl : s = slot := by simpa using List.find?_some hf
    exact List.mem_of_find?_eq_some hf
  · intro hm
    obtain ⟨c, hc⟩ := Option.isSome_iff_exists.1
      (List.find?_isSome (p := fun c : Slot × κ => c.1 == slot).2 ⟨_, hm, by simp⟩)
    have hs : c.1 = slot := by simpa using List.find?_some hc
    have heq := List.inj_on_of_nodup_map h.distinct (List.mem_of_find?_eq_some hc) hm hs
    exact ⟨c, hc, by rw [heq]⟩

end Filed

end Draft

/-! ## Going through the slots -/

namespace Tree

variable {t : Tree}

/-- The slots of all starred arguments, node after node. -/
def starred (t : Tree) : List Slot :=
  t.nodes.flatMap fun node => (node.2.filter (·.autocomplete)).map fun a => (node.1, a.name)

theorem Sound.isStarred_iff (ht : t.Sound) {slot : Slot} :
    Draft.isStarred t slot = true ↔ ∃ as a, t.arguments? slot.1 = some as ∧ a ∈ as
      ∧ a.name = slot.2 ∧ a.autocomplete = true := by
  refine ⟨Draft.exists_of_isStarred, ?_⟩
  rintro ⟨as, a, has, ha, hn, hauto⟩
  obtain ⟨b, hb⟩ := Option.isSome_iff_exists.1
    (List.find?_isSome (p := fun x : Argument => x.name == slot.2).2 ⟨a, ha, by simp [hn]⟩)
  have hname : b.name = a.name := by
    rw [hn]
    simpa using List.find?_some hb
  have hdistinct := (ht.soundArguments (mem_nodes_of_arguments? has)).distinct
  have heq := List.inj_on_of_nodup_map hdistinct (List.mem_of_find?_eq_some hb) ha hname
  rw [Draft.isStarred, has, Option.getD_some, hb, heq, Option.any_some, hauto]

theorem Sound.mem_starred_iff (ht : t.Sound) {slot : Slot} :
    slot ∈ t.starred ↔ Draft.isStarred t slot = true := by
  rw [ht.isStarred_iff, starred, List.mem_flatMap]
  constructor
  · rintro ⟨⟨p, as⟩, hnode, hm⟩
    obtain ⟨a, ha, rfl⟩ := List.mem_map.1 hm
    obtain ⟨hmem, hauto⟩ := List.mem_filter.1 ha
    exact ⟨as, a, ht.unambiguous.mem_nodes_iff.1 hnode, hmem, rfl, hauto⟩
  · rintro ⟨as, a, has, ha, hn, hauto⟩
    exact ⟨(slot.1, as), mem_nodes_of_arguments? has,
      List.mem_map.2 ⟨a, List.mem_filter.2 ⟨ha, hauto⟩, by rw [hn]⟩⟩

theorem Sound.nodup_starred (ht : t.Sound) : t.starred.Nodup := by
  rw [starred, List.nodup_flatMap]
  have hnodes := List.pairwise_map.1 ht.unambiguous.nodup_nodes
  refine ⟨fun node hnode => ?_, hnodes.imp fun hne slot h h' => ?_⟩
  · have hd := (ht.soundArguments hnode).distinct
    have hsub := hd.sublist ((List.filter_sublist (p := (·.autocomplete))).map Argument.name)
    have hmap : (node.2.filter (·.autocomplete)).map (fun a => (node.1, a.name))
        = ((node.2.filter (·.autocomplete)).map (·.name)).map (Prod.mk node.1) := by
      rw [List.map_map]
      rfl
    rw [hmap]
    exact hsub.map (Prod.mk_right_injective node.1)
  · obtain ⟨a, -, rfl⟩ := List.mem_map.1 h
    obtain ⟨b, -, he⟩ := List.mem_map.1 h'
    exact hne (congrArg Prod.fst he).symm

end Tree

namespace Draft

variable {κ : Type}

theorem missingCallbacks_eq (d : Draft κ) (stored : List (Slot × κ)) :
    d.missingCallbacks stored
      = if d.callbackFallback.isSome then []
        else (d.tree.starred.filter fun slot => !stored.any fun c => c.1 == slot).map (·.2) := by
  rw [missingCallbacks]
  split_ifs
  · rfl
  · rw [Tree.starred, List.filter_flatMap, List.map_flatMap]
    refine List.flatMap_congr fun node _ => ?_
    rw [List.filter_map, List.map_map, List.filter_filter]
    exact congrArg _ (List.filter_congr fun a _ => Bool.and_comm _ _)

end Draft

end SlashCommands
