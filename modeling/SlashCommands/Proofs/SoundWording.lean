import SlashCommands.Proofs.SoundDraft

/-!
# Sound wordings

The texts of a documentation entry are checked before they reach the draft, and they replace
descriptions only, so names, the order of arguments and all other limits stay as they were. Applying
the documentation entries keeps a draft sound (`Draft.Sound.applyDocs`).
-/

namespace SlashCommands

open Checked

/-! ## What an entry says -/

/-- New words that would pass the checks of the old ones. -/
structure Wording.Sound (w : Wording) : Prop where
  described : ∀ text ∈ w.description, Described text
  translated : ∀ e ∈ w.locales, isLocale e.1 = true ∧ Described e.2

theorem DocEntry.split_sound {key : String} {entry : DocEntry} {description : Option String}
    {locales : List (String × String)} (h : entry.split key = .ok (description, locales)) :
    (⟨description, locales⟩ : Wording).Sound := by
  cases entry with
  | plain text =>
    simp only [split, bind_ok_iff, exists_unit_ok_iff, Check.description_ok_iff] at h
    obtain ⟨hd, h⟩ := h
    cases h
    exact ⟨by simpa using hd, by rintro e ⟨⟩⟩
  | localized texts =>
    rw [split] at h
    rcases hd : texts.find? defaultKey with _ | text <;> rw [hd] at h
    · simp only [bind_ok_iff, exists_unit_ok_iff] at h
      obtain ⟨-, -, hl, h⟩ := h
      cases h
      exact ⟨by rintro text ⟨⟩, fun e he => by simpa using forM_ok_iff.1 hl e he⟩
    · simp only [bind_ok_iff, exists_unit_ok_iff, Check.description_ok_iff] at h
      obtain ⟨ht, hl, h⟩ := h
      cases h
      exact ⟨by simpa using ht, fun e he => by simpa using forM_ok_iff.1 hl e he⟩

namespace Wording

variable {w : Wording}

theorem Sound.describe (h : w.Sound) {old : String} (ho : Described old) :
    Described (w.describe old) := by
  rw [Wording.describe]
  rcases hw : w.description with _ | text
  · exact ho
  · exact h.described text hw

theorem Sound.localize (h : w.Sound) {old : Localizations} (ho : Translated old) :
    Translated (w.localize old) := fun e he => by
  rcases SortedMap.mem_insertAll he with he | he
  · exact h.translated e he
  · exact ho e he

/-- The check of an argument looks at nothing that a wording changes but the description. -/
theorem Sound.onArgument (h : w.Sound) {a : Argument} (ha : a.Sound) :
    (w.onArgument a).Sound where
  named := ha.named
  described := h.describe ha.described
  translated := h.localize ha.translated
  passes := Argument.check_ok_iff.2
    ⟨ha.named, h.describe ha.described, (Argument.check_ok_iff.1 ha.passes).2.2⟩

theorem Sound.onSubcommand (h : w.Sound) {s : Subcommand} (hs : s.Sound) :
    (w.onSubcommand s).Sound where
  named := hs.named
  described := h.describe hs.described
  translated := h.localize hs.translated
  arguments := hs.arguments

theorem Sound.onSubgroup (h : w.Sound) {g : Subgroup} (hg : g.Sound) : (w.onSubgroup g).Sound where
  named := hg.named
  described := h.describe hg.described
  translated := h.localize hg.translated
  each := hg.each
  distinct := hg.distinct

theorem Sound.onNamed (h : w.Sound) {name : String} {as : List Argument} (has : SoundArguments as) :
    SoundArguments (w.onNamed name as) := by
  rw [Wording.onNamed]
  generalize hc : changeFirst? _ _ as = changed
  rcases changed with _ | as'
  · exact has
  · obtain ⟨pre, a, a', post, rfl, -, ha, rfl⟩ := changeFirst?_eq_some hc
    cases ha
    exact has.replace (h.onArgument (has.each a mem_replaced)) rfl rfl

/-! ## Where it says it -/

theorem onNamed_nil {name : String} : w.onNamed name [] = [] :=
  rfl

theorem onTree.found_ok_iff {changed : Option Tree} {what reference : String} {t : Tree} :
    found changed what reference = .ok t ↔ changed = some t := by
  rcases changed with _ | t' <;> simp [found]

theorem Sound.onTree (h : w.Sound) {t t' : Tree} (ht : t.Sound) {key : String} {target : Target}
    (hc : w.onTree t key target = .ok t') : t'.Sound := by
  rcases target with _ | name | path | ⟨path, name⟩
  · cases hc
    exact ht
  · refine ht.changeSubgroup (onTree.found_ok_iff.1 hc) fun g g' _ hg hg' => ?_
    cases hg'
    exact ⟨h.onSubgroup hg, rfl⟩
  · exact ht.changeSubcommand (onTree.found_ok_iff.1 hc) fun s _ hs => ⟨h.onSubcommand hs, rfl⟩
  · rw [Wording.onTree] at hc
    split_ifs at hc
    refine ht.changeArguments (onTree.found_ok_iff.1 hc) (fun as _ has => h.onNamed has)
      fun _ => ?_
    rcases ht.apart with ha | ha
    · rw [ha]
      exact .inr onNamed_nil
    · exact .inl ha

end Wording

namespace Draft

variable {κ : Type} {d d' : Draft κ}

theorem Sound.applyDoc (h : d.Sound) {doc : Doc} (hd : d.applyDoc doc = .ok d') : d'.Sound := by
  simp only [Draft.applyDoc, bind_ok_iff] at hd
  obtain ⟨target, -, ⟨description, locales⟩, hw, hd⟩ := hd
  have hs := DocEntry.split_sound hw
  split at hd
  · cases hd
    exact { h with translated := hs.localize h.translated }
  · simp only [bind_ok_iff, pure_ok_iff] at hd
    obtain ⟨t, ht, rfl⟩ := hd
    exact h.withTree (hs.onTree h.tree ht)

theorem Sound.applyDocs (h : d.Sound) (hd : d.applyDocs = .ok d') : d'.Sound :=
  foldlM_keeps Draft.Sound (fun _ _ _ _ hb hc => hb.applyDoc hc)
    (show ({ d with docs := [] } : Draft κ).Sound from { h with }) hd

end Draft

end SlashCommands
