import SlashCommands.Proofs.BuilderRun

/-!
# What a draft only collects

Documentation entries and callbacks are collected by a draft and looked at only when it is sealed.
So every step that collects none of them comes to the same whatever has been collected
(`Draft.Overlooks`, `Edit.overlooks_apply`).
-/

namespace SlashCommands

variable {κ : Type}

/-- Other things collected instead. -/
structure Recollection (κ : Type) where
  docs : List Doc → List Doc
  callbacks : List (String × κ) → List (String × κ)
  callbackFallback : Option κ → Option κ

namespace Draft

def recollect (g : Recollection κ) (d : Draft κ) : Draft κ :=
  { d with
    docs := g.docs d.docs
    callbacks := g.callbacks d.callbacks
    callbackFallback := g.callbackFallback d.callbackFallback }

theorem recollect_tree (g : Recollection κ) (d : Draft κ) : (d.recollect g).tree = d.tree :=
  rfl

/-- A step to which it makes no difference what has been collected: with other things collected, it
leaves the same draft with these things, or fails with the same fault. -/
def Overlooks (g : Recollection κ) (f : Draft κ → Checked (Draft κ)) : Prop :=
  ∀ d, f (d.recollect g) = recollect g <$> f d

variable {g : Recollection κ}

theorem Overlooks.foldlM {α : Type} {f : Draft κ → α → Checked (Draft κ)} :
    ∀ {xs : List α}, (∀ x ∈ xs, Overlooks g fun d => f d x) → Overlooks g fun d => xs.foldlM f d
  | [], _, d => by
    simp only [List.foldlM_nil, map_pure]
  | x :: xs, h, d => by
    have ih : Overlooks g fun d => xs.foldlM f d :=
      foldlM fun y hy => h y (List.mem_cons_of_mem _ hy)
    simp only [List.foldlM_cons, h x List.mem_cons_self d, map_bind, bind_map_left]
    exact bind_congr fun c => ih c

/-! ## Steps that declare -/

theorem overlooks_addSubgroup (name description : String) :
    Overlooks g fun d => d.addSubgroup name description := by
  intro d
  simp only [addSubgroup, map_bind, map_pure]
  rfl

theorem overlooks_ensureSubgroup (group sub : String) :
    Overlooks g fun d => d.ensureSubgroup group sub := by
  intro d
  simp only [ensureSubgroup]
  rw [recollect_tree]
  split_ifs
  · rfl
  · simp only [map_bind, map_pure]
    rfl

theorem overlooks_insertNested (group : String) (p : Path) (s : Subcommand) :
    Overlooks g fun d => d.insertNested group p s := by
  intro d
  simp only [insertNested, overlooks_ensureSubgroup group s.name d, map_bind, bind_map_left]
  refine bind_congr fun e => ?_
  rw [recollect_tree]
  rcases e.tree.subgroup? group with _ | found
  · rfl
  rcases e.tree.changeSubgroup? group fun g =>
      some { g with subcommands := g.subcommands ++ [s] } with _ | t
  all_goals
    simp only [map_bind]
    rfl

theorem overlooks_insertSubcommand (p : Path) (s : Subcommand) :
    Overlooks g fun d => d.insertSubcommand p s := by
  intro d
  simp only [insertSubcommand, map_bind]
  refine bind_congr fun _ => ?_
  rcases p with ⟨_ | group, sub⟩
  · simp only [map_bind, map_pure]
    rfl
  · exact overlooks_insertNested group _ s d

theorem overlooks_addSubcommand (p : Path) (description : String) :
    Overlooks g fun d => d.addSubcommand p description := by
  intro d
  simp only [addSubcommand, map_bind, overlooks_insertSubcommand _ _ d]

theorem overlooks_addPlaceholder (p : Path) : Overlooks g fun d => d.addPlaceholder p := by
  intro d
  simp only [addPlaceholder, map_bind, overlooks_insertSubcommand _ _ d]

theorem overlooks_addArgument (p : Path) (a : Argument) :
    Overlooks g fun d => d.addArgument p a := by
  intro d
  simp only [addArgument, map_bind]
  refine bind_congr fun _ => ?_
  rw [recollect_tree]
  rcases d.tree.arguments? p with _ | as
  · rfl
  rcases d.tree.changeArguments? p (· ++ [a]) with _ | t
  all_goals
    simp only [map_bind]
    rfl

theorem overlooks_ensurePath (p : Path) : Overlooks g fun d => d.ensurePath p := by
  intro d
  simp only [ensurePath]
  rw [recollect_tree]
  split_ifs
  · simp only [map_bind, map_pure]
    rfl
  · rfl
  · exact overlooks_addPlaceholder p d

theorem overlooks_declare (declaration : Declaration) :
    Overlooks g fun d => d.declare declaration := by
  intro d
  simp only [declare]
  split_ifs
  · exact overlooks_addPlaceholder _ d
  · simp only [overlooks_ensurePath _ d, map_bind, bind_map_left]
    exact bind_congr fun e => Overlooks.foldlM (fun a _ => overlooks_addArgument _ a) e

/-! ## Steps that collect -/

/-- Collecting documentation does not depend on the callbacks. -/
theorem overlooks_document (h : g.docs = id) (entries : List Doc) :
    Overlooks g fun d => .ok { d with docs := d.docs ++ entries } := by
  obtain ⟨docs, callbacks, fallback⟩ := g
  obtain rfl : docs = id := h
  exact fun _ => rfl

/-- Collecting a callback does not depend on the documentation. -/
theorem overlooks_setCallback (hc : g.callbacks = id) (hf : g.callbackFallback = id) (key : String)
    (callback : κ) : Overlooks g fun d => d.setCallback key callback := by
  obtain ⟨docs, callbacks, fallback⟩ := g
  obtain rfl : callbacks = id := hc
  obtain rfl : fallback = id := hf
  intro d
  simp only [setCallback, map_bind]
  refine bind_congr fun _ => ?_
  split_ifs
  · simp only [map_bind, map_pure]
    rfl
  · rfl

end Draft

namespace Edit

/-- The call gives documentation, or names a file with documentation. -/
def isDocs : Edit κ → Bool
  | docs _ => true
  | docsFile .. => true
  | _ => false

/-- The key and the callback that the call registers. -/
def callback? : Edit κ → Option (String × κ)
  | autocomplete key callback => some (key, callback)
  | _ => none

/-- A call overlooks all that it does not collect itself. -/
theorem overlooks_apply {g : Recollection κ} {e : Edit κ} (hdocs : e.isDocs = true → g.docs = id)
    (hcallback : e.callback? ≠ none → g.callbacks = id ∧ g.callbackFallback = id) :
    Draft.Overlooks g fun d => e.apply d := by
  intro d
  cases e with
  | docs entries => exact Draft.overlooks_document (hdocs rfl) entries d
  | docsFile path content =>
    simp only [apply, map_bind]
    exact bind_congr fun entries => Draft.overlooks_document (hdocs rfl) entries d
  | autocomplete key callback =>
    obtain ⟨hc, hf⟩ := hcallback (by simp [callback?])
    exact Draft.overlooks_setCallback hc hf key callback d
  | subgroup name text => exact Draft.overlooks_addSubgroup name text d
  | subcommand path text =>
    simp only [apply, map_bind, Draft.overlooks_addSubcommand _ text d]
  | argument text => simp only [apply, map_bind, Draft.overlooks_declare _ d]
  | argumentWith options => simp only [apply, map_bind, Draft.overlooks_declare _ d]
  | description text =>
    simp only [apply, Draft.describe, map_bind, map_pure]
    rfl
  | localize locale text =>
    simp only [apply, Draft.localize, map_bind, map_pure]
    rfl
  | require requirement =>
    simp only [apply, Draft.require, map_bind]
    refine bind_congr fun r => ?_
    cases r <;> rfl
  | channel reference =>
    simp only [apply, Draft.allowChannel, map_bind, map_pure]
    rfl
  | guild reference =>
    simp only [apply, Draft.addGuild, map_bind, map_pure]
    rfl

end Edit

end SlashCommands
