import SlashCommands.Proofs.CollectedParts

/-!
# Documentation before or after what it documents

Documentation is looked at only when a command is sealed. So every call that gives none is blind to
what has been collected of it (`Draft.Blind`, `Edit.blind_apply`), and a call that gives
documentation may be moved across all calls that give none (`Builder.docs_movable`).
-/

namespace SlashCommands

open Checked

variable {κ η : Type}

namespace Draft

/-- The draft with more documentation collected. -/
def document (d : Draft κ) (entries : List Doc) : Draft κ :=
  { d with docs := d.docs ++ entries }

/-- A step to which it makes no difference what documentation has been collected: with more of it,
the step leaves the same draft with more of it, or fails with the same fault. -/
def Blind (f : Draft κ → Checked (Draft κ)) : Prop :=
  ∀ d entries, f (d.document entries) = (fun d => d.document entries) <$> f d

theorem Blind.foldlM {α : Type} {f : Draft κ → α → Checked (Draft κ)} {xs : List α}
    (h : ∀ x ∈ xs, Blind fun d => f d x) : Blind fun d => xs.foldlM f d := by
  intro d entries
  exact Overlooks.foldlM (g := ⟨(· ++ entries), id, id⟩) (fun x hx d => h x hx d entries) d

end Draft

/-- A call that gives no documentation does not look at any. -/
theorem Edit.blind_apply {e : Edit κ} (h : e.isDocs = false) : Draft.Blind fun d => e.apply d :=
  fun d entries => overlooks_apply (g := ⟨(· ++ entries), id, id⟩)
    (fun hdocs => absurd (h.symm.trans hdocs) Bool.false_ne_true) (fun _ => ⟨rfl, rfl⟩) d

namespace Builder

theorem edits_append (b : Builder κ) (es es' : List (Edit κ)) :
    b.edits (es ++ es') = (b.edits es).edits es' :=
  List.foldl_append

/-- Documentation that is given before some calls that give none might as well be given after them.
-/
theorem outcome_docs_cons {es : List (Edit κ)} (h : ∀ e ∈ es, e.isDocs = false)
    (b : Builder κ) (entries : List Doc) :
    (b.edits (.docs entries :: es)).outcome = (b.edits (es ++ [.docs entries])).outcome := by
  have hes : Draft.Blind fun d : Draft κ => es.foldlM Edit.apply d :=
    .foldlM fun e he => Edit.blind_apply (h e he)
  rw [outcome_edits, outcome_edits]
  refine bind_congr fun d => ?_
  rw [List.foldlM_append]
  calc es.foldlM Edit.apply (d.document entries)
      = (fun d => d.document entries) <$> es.foldlM Edit.apply d := hes d entries
    _ = es.foldlM Edit.apply d >>= fun c => pure (c.document entries) := map_eq_pure_bind _ _

/-- A call that gives documentation may be moved across any calls that give none, and one such call
may change places with it: what is warned of and the sealed command, with its payload and its
callbacks, are the same, and so is the fault if there is one. -/
theorem docs_movable (name description : String) (before : List (Edit κ)) (entries : List Doc)
    (passed after : List (Edit κ)) (terminal : Draft.Terminal η)
    (h : ∀ e ∈ passed, e.isDocs = false) :
    ((new name description).edits (before ++ .docs entries :: passed ++ after)).finish terminal
      = ((new name description).edits (before ++ passed ++ .docs entries :: after)).finish
        terminal := by
  have hd : ((new name description).edits (before ++ .docs entries :: passed ++ after)).outcome
      = ((new name description).edits (before ++ passed ++ .docs entries :: after)).outcome := by
    have hsplit : before ++ passed ++ .docs entries :: after
        = before ++ (passed ++ [.docs entries]) ++ after := by simp
    rw [hsplit, edits_append, edits_append, edits_append, edits_append, outcome_edits after,
      outcome_docs_cons h, ← outcome_edits after]
  rw [finish_eq, finish_eq, hd]

/-- A greeting and whom it is for. -/
def greetDocs : List Doc :=
  [("name", .plain "Whom to greet"), ("$default", .plain "Greets")]

/-- What the documentation speaks of is declared here, and described otherwise. -/
def greetCalls : List (Edit Unit) :=
  [.description "Says hello", .argument "<*name: string>"]

theorem greetCalls_docs_movable :
    ∃ s, (((new "greet" "").edits ([] ++ .docs greetDocs :: greetCalls
        ++ [.autocomplete "name" ()])).finish (.action ())).2 = .ok s
      ∧ (((new "greet" "").edits ([] ++ greetCalls ++ .docs greetDocs
        :: [.autocomplete "name" ()])).finish (.action ())).2 = .ok s := by
  have hd := docs_movable "greet" "" [] greetDocs greetCalls [.autocomplete "name" ()]
    (.action ()) (by decide)
  have hok : (((new "greet" "").edits ([] ++ .docs greetDocs :: greetCalls
      ++ [.autocomplete "name" ()])).finish (.action ())).2.isOk = true := by
    decide +kernel
  rcases hs : (((new "greet" "").edits ([] ++ .docs greetDocs :: greetCalls
      ++ [.autocomplete "name" ()])).finish (.action ())).2 with fault | s
  · rw [hs] at hok
    cases hok
  · exact ⟨s, hs, (congrArg Prod.snd hd).symm.trans hs⟩

end Builder

end SlashCommands
