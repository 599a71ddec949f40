import SlashCommands.Proofs.RewordedTree

/-!
# What documentation does to a command

What all entries together say of a target: the default text of the last one that has one, and all
their texts by locale, in their order (`Doc.said`). Each entry resolves as it would have at the
beginning, because wordings are all that the entries before it have changed
(`Draft.Sound.applyDoc_eq`). So sealing a command words everything in it by what is said of it,
and leaves everything else alone (`Draft.Reachable.sealed_documented`).
-/

namespace SlashCommands

open Checked

/-! ## Texts by locale -/

namespace SortedMap

variable {α β : Type} [Ord α] [Std.TransOrd α] [Std.LawfulEqOrd α] [DecidableEq α]

/-- The last entry of a key stays. -/
theorem find?_insertAll (key : α) : ∀ (es : List (α × β)) (m : SortedMap α β),
    (m.insertAll es).find? key
      = ((es.filter fun e => e.1 = key).getLast?.map (·.2)).or (m.find? key)
  | [], m => rfl
  | e :: es, m => by
    have ih := find?_insertAll key es (m.insert e.1 e.2)
    change (m.insertAll (e :: es)).find? key = _ at ih
    rw [ih]
    by_cases hk : e.1 = key
    · subst hk
      rw [find?_insert_self, List.filter_cons_of_pos (by simp), List.getLast?_cons]
      generalize (es.filter _).getLast? = last
      cases last <;> rfl
    · rw [find?_insert_of_ne (Ne.symm hk), List.filter_cons_of_neg (by simpa using hk)]

end SortedMap

/-! ## What is said -/

namespace DocEntry

/-- The text for the description itself. -/
def default? : DocEntry → Option String
  | plain text => some text
  | localized texts => texts.find? defaultKey

/-- The texts of an entry for locales, without the one for all others. -/
def locales : DocEntry → List (String × String)
  | plain _ => []
  | localized texts => (texts.erase defaultKey).entries

/-- What the entry says of what it resolves to. -/
def wording (entry : DocEntry) : Wording :=
  ⟨entry.default?, entry.locales⟩

theorem split_eq_of_ok {key : String} {entry : DocEntry}
    {parts : Option String × List (String × String)} (h : entry.split key = .ok parts) :
    parts = (entry.default?, entry.locales) := by
  cases entry with
  | plain text =>
    simp only [split, bind_ok_iff, exists_unit_ok_iff, pure_ok_iff] at h
    exact h.2.symm
  | localized texts =>
    rw [split] at h
    rcases hd : texts.find? defaultKey with _ | text <;> rw [hd] at h <;>
      simp only [bind_ok_iff, pure_ok_iff] at h
    · obtain ⟨-, -, -, -, rfl⟩ := h
      rw [default?, hd, locales]
    · obtain ⟨-, -, -, -, rfl⟩ := h
      rw [default?, hd, locales]

end DocEntry

namespace Doc

variable {t : Tree}

/-- The entries that are about a target, in their order. -/
def about (t : Tree) (docs : List Doc) (target : Target) : List DocEntry :=
  (docs.filter fun doc => Reference.resolve t doc.1 = .ok target).map (·.2)

/-- What entries say together: the last default text, and all texts by locale. -/
def together (entries : List DocEntry) : Wording where
  description := (entries.filterMap DocEntry.default?).getLast?
  locales := entries.flatMap DocEntry.locales

/-- All that the entries say of a target, a later one over an earlier one. -/
def said (t : Tree) (docs : List Doc) (target : Target) : Wording :=
  together (about t docs target)

theorem together_cons (entry : DocEntry) (entries : List DocEntry) :
    together (entry :: entries) = entry.wording.andThen (together entries) := by
  rw [together, together, Wording.andThen, DocEntry.wording, List.flatMap_cons]
  congr 1
  rcases hd : entry.default? with _ | text
  · rw [List.filterMap_cons_none hd, Option.or_none]
  · rw [List.filterMap_cons_some hd, List.getLast?_cons]
    generalize (entries.filterMap DocEntry.default?).getLast? = last
    cases last <;> rfl

theorem about_of_not_mem {docs : List Doc} {target : Target}
    (h : ∀ doc ∈ docs, Reference.resolve t doc.1 ≠ .ok target) : about t docs target = [] := by
  rw [about, List.filter_eq_nil_iff.2 fun doc hd => by simpa using h doc hd, List.map_nil]

/-- The last text for a locale among those of the entries. -/
def lastFor (locale : String) (entries : List DocEntry) : Option String :=
  ((entries.flatMap DocEntry.locales).filter fun e => e.1 = locale).getLast?.map (·.2)

theorem find?_localize (entries : List DocEntry) (old : Localizations) (locale : String) :
    ((together entries).localize old).find? locale
      = (lastFor locale entries).or (old.find? locale) :=
  SortedMap.find?_insertAll locale _ old

theorem said_nil (target : Target) : said t [] target = .silent :=
  rfl

/-- Of what an entry resolves to, it says its part first. -/
theorem said_cons (doc : Doc) (docs : List Doc) {found : Target}
    (h : Reference.resolve t doc.1 = .ok found) (target : Target) : said t (doc :: docs) target
      = (Wording.only found doc.2.wording target).andThen (said t docs target) := by
  rw [said, about]
  by_cases hf : target = found
  · subst hf
    rw [List.filter_cons_of_pos (by simpa using h), List.map_cons, together_cons,
      Wording.only_self]
    rfl
  · have hne : ¬ Reference.resolve t doc.1 = .ok target := by
      rw [h]
      rintro ⟨⟩
      exact hf rfl
    rw [List.filter_cons_of_neg (by simpa using hne), Wording.only_of_ne hf,
      Wording.silent_andThen]
    rfl

/-- What is said depends only on what the references resolve to. -/
theorem said_congr {t' : Tree} (h : ∀ raw, Reference.resolve t' raw = Reference.resolve t raw)
    (docs : List Doc) : said t' docs = said t docs := by
  funext target
  simp only [said, about, h]

end Doc

/-! ## Drafts -/

namespace Draft

variable {κ η : Type} {d d' : Draft κ}

/-- The draft in which the command and everything in it is worded by what is said of it. -/
def reworded (w : Target → Wording) (d : Draft κ) : Draft κ :=
  { d with
    description := (w .command).describe d.description
    localizations := (w .command).localize d.localizations
    tree := d.tree.reworded w }

theorem reworded_reworded (w v : Target → Wording) (d : Draft κ) :
    (d.reworded w).reworded v = d.reworded fun x => (w x).andThen (v x) := by
  simp [reworded, Tree.reworded_reworded, Wording.describe_andThen, Wording.localize_andThen]

/-- An entry words what it resolves to, and nothing else. -/
theorem Sound.applyDoc_eq (h : d.Sound) {doc : Doc} (hd : d.applyDoc doc = .ok d') :
    ∃ target, Reference.resolve d.tree doc.1 = .ok target
      ∧ d' = d.reworded (Wording.only target doc.2.wording) := by
  simp only [Draft.applyDoc, bind_ok_iff] at hd
  obtain ⟨target, ht, parts, hparts, hd⟩ := hd
  obtain rfl := DocEntry.split_eq_of_ok hparts
  refine ⟨target, ht, ?_⟩
  split at hd
  · cases hd
    rw [reworded, Tree.reworded_of_silent fun x hx => Wording.only_of_ne hx _]
    rfl
  · rename_i hne
    simp only [bind_ok_iff, pure_ok_iff] at hd
    obtain ⟨t, hw, rfl⟩ := hd
    rw [reworded, Wording.onTree_eq_reworded h.tree hw, Wording.only_of_ne (Ne.symm hne)]
    rfl

theorem Sound.applyDocs_eq : ∀ {docs : List Doc} {d d' : Draft κ}, d.Sound →
    docs.foldlM Draft.applyDoc d = .ok d' →
      (∀ doc ∈ docs, ∃ target, Reference.resolve d.tree doc.1 = .ok target)
        ∧ d' = d.reworded (Doc.said d.tree docs)
  | [], d, d', _, hd => by
    rw [List.foldlM_nil, pure_ok_iff] at hd
    refine ⟨by simp, ?_⟩
    rw [← hd, reworded, Tree.reworded_of_silent fun _ _ => Doc.said_nil _]
    rfl
  | doc :: docs, d, d', h, hd => by
    rw [List.foldlM_cons, bind_ok_iff] at hd
    obtain ⟨e, he, hd⟩ := hd
    have hsound := h.applyDoc he
    obtain ⟨target, ht, rfl⟩ := h.applyDoc_eq he
    obtain ⟨hall, rfl⟩ := applyDocs_eq hsound hd
    have hresolve : ∀ raw,
        Reference.resolve (d.reworded (Wording.only target doc.2.wording)).tree raw
          = Reference.resolve d.tree raw := Tree.resolve_reworded h.tree hsound.tree
    refine ⟨List.forall_mem_cons.2 ⟨⟨target, ht⟩, fun doc hm => hresolve _ ▸ hall doc hm⟩, ?_⟩
    rw [reworded_reworded, Doc.said_congr hresolve]
    exact congrArg (fun w => d.reworded w) (funext fun x => (Doc.said_cons doc docs ht x).symm)

theorem Sound.applyDocs_reworded (h : d.Sound) (hd : d.applyDocs = .ok d') :
    (∀ doc ∈ d.docs, ∃ target, Reference.resolve d.tree doc.1 = .ok target)
      ∧ d' = ({ d with docs := [] } : Draft κ).reworded (Doc.said d.tree d.docs) :=
  applyDocs_eq (show ({ d with docs := [] } : Draft κ).Sound from { h with }) hd

/-! ## Callbacks and handlers -/

theorem addCallback_congr {t t' : Tree}
    (h : ∀ raw, Reference.resolve t' raw = Reference.resolve t raw)
    (hs : ∀ slot, isStarred t' slot = isStarred t slot) :
    (addCallback t' : List (Slot × κ) → _) = addCallback t := by
  funext stored entry
  simp only [addCallback, h, hs]

/-- Callbacks go to the same arguments, whether the documentation is applied first or not. -/
theorem Sound.resolveCallbacks_documented (h : d.Sound) (hd : d.applyDocs = .ok d') :
    d'.resolveCallbacks = d.resolveCallbacks := by
  have hsound := h.applyDocs hd
  obtain ⟨-, rfl⟩ := h.applyDocs_reworded hd
  have hadd : (addCallback (d.tree.reworded _) : List (Slot × κ) → _) = addCallback d.tree :=
    addCallback_congr (Tree.resolve_reworded h.tree hsound.tree) (Tree.isStarred_reworded d.tree)
  exact congrArg (fun f => d.callbacks.foldlM f []) hadd

theorem routePath_of_shape {t t' : Tree} (h : t'.shape = t.shape) (key : String) :
    routePath t' key = routePath t key := by
  have hgroup : ∀ name, (t'.subgroup? name).isSome = (t.subgroup? name).isSome :=
    fun name => Tree.contains_of_shape h (.ofGroup name)
  simp only [routePath, hgroup]

theorem resolveHandler_of_shape {t t' : Tree} (h : t'.shape = t.shape) (terminal : Terminal η) :
    resolveHandler t' terminal = resolveHandler t terminal := by
  have hadd : (addRoute t' : RouteTable η → _) = addRoute t := by
    funext table entry
    simp only [addRoute, routePath_of_shape h, Tree.contains_of_shape h]
  cases terminal with
  | action => rfl
  | actions routes => simp only [resolveHandler, hadd]

theorem Sound.resolveHandler_documented (h : d.Sound) (hd : d.applyDocs = .ok d')
    (terminal : Terminal η) : resolveHandler d'.tree terminal = resolveHandler d.tree terminal := by
  obtain ⟨-, rfl⟩ := h.applyDocs_reworded hd
  exact resolveHandler_of_shape (Tree.shape_reworded d.tree) terminal

/-! ## Sealed commands -/

/-- A command that was sealed from a draft: the wording of the command and of what is declared in
it is all that may differ, and it is what the entries say. -/
structure SealedFrom (d : Draft κ) (terminal : Terminal η) (s : Spec η κ) : Prop where
  /-- No entry is dropped. -/
  resolved : ∀ doc ∈ d.docs, ∃ target, Reference.resolve d.tree doc.1 = .ok target
    ∧ (target = .command ∨ (Reference.words doc.1, target) ∈ d.tree.entities)
  description : s.description = (Doc.said d.tree d.docs .command).describe d.description
  localizations : s.localizations = (Doc.said d.tree d.docs .command).localize d.localizations
  tree : s.tree = d.tree.reworded (Doc.said d.tree d.docs)
  unsaid : ∀ target, (∀ doc ∈ d.docs, Reference.resolve d.tree doc.1 ≠ .ok target) →
    Doc.said d.tree d.docs target = .silent
  /-- A later text for a locale replaces an earlier one. -/
  latest : ∀ target (old : Localizations) locale,
    ((Doc.said d.tree d.docs target).localize old).find? locale
      = (Doc.lastFor locale (Doc.about d.tree d.docs target)).or (old.find? locale)
  name : s.name = d.name
  permissions : s.permissions = d.permissions
  roles : s.roles = d.roles
  channels : s.channels = d.channels
  guilds : s.guilds = d.guilds
  callbacks : d.resolveCallbacks = .ok s.callbacks
  callbackFallback : s.callbackFallback = d.callbackFallback
  handler : resolveHandler d.tree terminal = .ok s.handler

/-- Sealing words everything by what the documentation says of it, and changes nothing else. -/
theorem Reachable.sealed_documented (h : d.Reachable) {terminal : Terminal η} {s : Spec η κ}
    (hs : (d.finish terminal).2 = .ok s) : d.SealedFrom terminal s := by
  obtain ⟨documented, callbacks, handler, hp, hh, rfl⟩ := finish_ok_iff.1 hs
  obtain ⟨hd, -, -, -, hc⟩ := prepare_ok_iff.1 hp
  rw [h.sound.resolveCallbacks_documented hd] at hc
  rw [h.sound.resolveHandler_documented hd] at hh
  obtain ⟨hall, rfl⟩ := h.sound.applyDocs_reworded hd
  refine
    { resolved := fun doc hm => ?_
      description := rfl
      localizations := rfl
      tree := rfl
      unsaid := fun target hn => by rw [Doc.said, Doc.about_of_not_mem hn]; rfl
      latest := fun target old locale => Doc.find?_localize _ old locale
      name := rfl
      permissions := rfl
      roles := rfl
      channels := rfl
      guilds := rfl
      callbacks := hc
      callbackFallback := rfl
      handler := hh }
  obtain ⟨target, ht⟩ := hall doc hm
  refine ⟨target, ht, or_iff_not_imp_left.2 fun hne => ?_⟩
  exact Tree.mem_entities_iff.2 (Reference.entity_of_resolve h.sound.tree ht hne)

/-- Three entries for one subcommand, written in three ways, and one for the command. -/
def roleEdits : List (Edit Unit) :=
  [.docs [("role add", .plain "Adds"), ("$default", .plain "Manages roles")],
    .argument "role add <name: string>",
    .docs [("role *add*", .localized (.ofList [("$default", "Adds a role"), ("de", "Neu")])),
      ("<role> [add]", .localized (.ofList [("de", "Legt eine Rolle an")]))]]

theorem roleEdits_sealed_documented :
    ∃ s, (((Builder.new "manage" "").edits roleEdits).draft.finish (.action ())).2 = .ok s
      ∧ ((Builder.new "manage" "").edits roleEdits).draft.SealedFrom (.action ()) s
      ∧ s.description = "Manages roles"
      ∧ ((s.tree.nested? "role" "add").map fun s => (s.description, s.localizations.entries))
        = some ("Adds a role", [("de", "Legt eine Rolle an")]) := by
  have hreachable : ((Builder.new "manage" "").edits roleEdits).draft.Reachable :=
    Builder.reachable_edits (by decide +kernel)
  have h : ((((Builder.new "manage" "").edits roleEdits).draft.finish (.action ())).2.toOption.map
      fun s => (s.description,
        (s.tree.nested? "role" "add").map fun s => (s.description, s.localizations.entries)))
      = some ("Manages roles", some ("Adds a role", [("de", "Legt eine Rolle an")])) := by
    decide +kernel
  obtain ⟨s, hs, htexts⟩ := Option.map_eq_some_iff.1 h
  obtain ⟨hdescription, hadd⟩ := Prod.mk.inj htexts
  rw [toOption_eq_some_iff] at hs
  exact ⟨s, hs, hreachable.sealed_documented hs, hdescription, hadd⟩

end Draft

end SlashCommands
