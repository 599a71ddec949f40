import SlashCommands.Proofs.BuilderRun

/-!
# Reachable drafts

The drafts that a command may be in while it is built and sealed (`Draft.Reachable`): begun under a
legal name, changed by edits, described by documentation entries. All of them are sound
(`Draft.Reachable.sound`). The draft of a builder without a fault is one of them
(`Builder.reachable_edits`), and so is what is left of it when the command is sealed
(`Builder.exists_reachable_of_finish`).
-/

namespace SlashCommands

open Checked

variable {κ η : Type}

/-- A draft between the first call on a builder and the end of sealing. -/
inductive Draft.Reachable : Draft κ → Prop
  | new {name : String} (h : Named name) (description : String) :
    Reachable (.new name description)
  | edit {d d' : Draft κ} (h : Reachable d) {e : Edit κ} (he : e.apply d = .ok d') : Reachable d'
  /-- Sealing takes the entries out of the draft before it applies them. -/
  | take {d : Draft κ} (h : Reachable d) : Reachable { d with docs := [] }
  | document {d d' : Draft κ} (h : Reachable d) {doc : Doc} (hd : d.applyDoc doc = .ok d') :
    Reachable d'

namespace Draft.Reachable

variable {d d' : Draft κ}

theorem sound (h : d.Reachable) : d.Sound := by
  induction h with
  | @new name h description =>
    have hnew : (Builder.new name description : Builder κ).fault = none := by
      simp [Builder.new, h "command"]
    exact Builder.new_sound name description hnew
  | edit _ he ih => exact Edit.apply_sound ih he
  | take _ ih => exact { ih with }
  | document _ hd ih => exact ih.applyDoc hd

theorem applyDocs (h : d.Reachable) (hd : d.applyDocs = .ok d') : d'.Reachable :=
  foldlM_keeps Reachable (fun _ _ _ _ hb hc => hb.document hc) h.take hd

end Draft.Reachable

namespace Builder

theorem reachable_edits {name description : String} {es : List (Edit κ)}
    (h : ((new name description).edits es).fault = none) :
    ((new name description).edits es).draft.Reachable := by
  have ho := outcome_eq_ok_iff.2 ⟨h, rfl⟩
  rw [outcome_chain] at ho
  obtain ⟨_, hn, hes⟩ := bind_ok_iff.1 ho
  have hnew : (Draft.new name description : Draft κ).Reachable :=
    .new (Check.slashName_ok_iff.1 hn) description
  exact foldlM_keeps Draft.Reachable (fun _ _ _ _ hd he => hd.edit he) hnew hes

/-- The tree of a sealed command is the one of a reachable draft. -/
theorem exists_reachable_of_finish {name description : String} {es : List (Edit κ)}
    {terminal : Draft.Terminal η} {s : Spec η κ}
    (h : (((new name description).edits es).finish terminal).2 = .ok s) :
    ∃ d : Draft κ, d.Reachable ∧ d.tree = s.tree := by
  obtain ⟨hf, hs⟩ := finish_ok_iff.1 h
  obtain ⟨documented, callbacks, handler, hp, -, rfl⟩ := Draft.finish_ok_iff.1 hs
  exact ⟨documented, (reachable_edits hf).applyDocs (Draft.prepare_ok_iff.1 hp).1, rfl⟩

end Builder

end SlashCommands
