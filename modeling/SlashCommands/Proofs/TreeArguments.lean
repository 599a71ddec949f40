import SlashCommands.Proofs.SealedCommand

/-!
# Arguments of a tree

What holds of an argument as soon as it is declared and checked, and stays when it is documented
(`Argument.Lasting`), holds of every argument of a sealed command, wherever it stands in the tree
(`Builder.sealed_each`): edits move no argument and change none that is there.
-/

namespace SlashCommands

open Checked

/-- A property that an argument has if its declaration passes the check, and that documentation
does not touch. -/
structure Argument.Lasting (p : Argument → Prop) : Prop where
  declared : ∀ {raw d}, Declaration.parse raw = .ok d → ∀ a ∈ d.arguments, a.check = .ok () → p a
  described : ∀ {o : ArgumentOptions} {path a}, o.toArgument = .ok (path, a) →
    a.check = .ok () → p a
  documented : ∀ (w : Wording) a, p a → p (w.onArgument a)

/-- All arguments of a subcommand have a property. -/
def Subcommand.Each (p : Argument → Prop) (s : Subcommand) : Prop :=
  ∀ a ∈ s.arguments, p a

/-- All arguments inside a subgroup have a property. -/
def Subgroup.Each (p : Argument → Prop) (g : Subgroup) : Prop :=
  ∀ s ∈ g.subcommands, s.Each p

/-- All arguments inside a child have a property. -/
def Child.Each (p : Argument → Prop) : Child → Prop
  | subcommand s => s.Each p
  | subgroup g => g.Each p

/-- Every argument has the property, those of the command itself and those of its subcommands. -/
structure Tree.Each (p : Argument → Prop) (t : Tree) : Prop where
  arguments : ∀ a ∈ t.arguments, p a
  children : ∀ c ∈ t.children, c.Each p

variable {p : Argument → Prop}

theorem Subcommand.each_new (name description : String) :
    (Subcommand.new name description).Each p := by
  rintro a ⟨⟩

theorem Subgroup.each_new (name description : String) :
    (Subgroup.new name description).Each p := by
  rintro s ⟨⟩

namespace Tree.Each

variable {t t' : Tree}

theorem empty : Tree.empty.Each p :=
  ⟨by rintro a ⟨⟩, by rintro c ⟨⟩⟩

theorem addChild (h : t.Each p) {c : Child} (hc : c.Each p) :
    ({ t with children := t.children ++ [c] } : Tree).Each p :=
  ⟨h.arguments, forall_mem_concat h.children hc⟩

theorem replace (h : t.Each p) {pre post : List Child} {b c : Child}
    (ht : t.children = pre ++ b :: post) (hc : c.Each p) :
    ({ t with children := pre ++ c :: post } : Tree).Each p :=
  ⟨h.arguments, forall_mem_replace (ht ▸ h.children) hc⟩

theorem changeSubgroup (h : t.Each p) {name : String} {change : Subgroup → Option Subgroup}
    (ht : t.changeSubgroup? name change = some t')
    (hc : ∀ g g', g.Each p → change g = some g' → g'.Each p) : t'.Each p := by
  obtain ⟨pre, g, g', post, hg, -, hg', rfl⟩ := changeSubgroup?_eq_some ht
  have hm : Child.subgroup g ∈ t.children := hg ▸ mem_replaced
  exact h.replace hg (c := .subgroup g') (hc g g' (h.children _ hm) hg')

theorem changeSubcommand (h : t.Each p) {path : Path} {change : Subcommand → Subcommand}
    (ht : t.changeSubcommand? path change = some t')
    (hc : ∀ s, s.Each p → (change s).Each p) : t'.Each p := by
  rcases changeSubcommand?_eq_some ht with
    ⟨pre, s, post, -, hx, rfl⟩ | ⟨pre, g, post, before, s, after, -, hx, hg, rfl⟩
  · have hm : Child.subcommand s ∈ t.children := hx ▸ mem_replaced
    exact h.replace hx (c := .subcommand (change s)) (hc s (h.children _ hm))
  · have hm : Child.subgroup g ∈ t.children := hx ▸ mem_replaced
    have hgs : g.Each p := h.children _ hm
    rw [Subgroup.Each, hg] at hgs
    exact h.replace hx (c := .subgroup { g with subcommands := before ++ change s :: after })
      (forall_mem_replace hgs (hc s (hgs s mem_replaced)))

theorem changeArguments (h : t.Each p) {path : Path} {change : List Argument → List Argument}
    (ht : t.changeArguments? path change = some t')
    (hc : ∀ as, (∀ a ∈ as, p a) → ∀ a ∈ change as, p a) : t'.Each p := by
  rw [changeArguments?] at ht
  split_ifs at ht
  · cases ht
    exact ⟨hc _ h.arguments, h.children⟩
  · exact h.changeSubcommand ht fun s hs => hc _ hs

end Tree.Each

/-! ## Edits -/

namespace Draft

variable {κ : Type} {d d' : Draft κ}

theorem each_ensureSubgroup (h : d.tree.Each p) {group sub : String}
    (hd : d.ensureSubgroup group sub = .ok d') : d'.tree.Each p := by
  rcases ensureSubgroup_ok_iff.1 hd with ⟨-, rfl⟩ | ⟨-, -, -, -, rfl⟩
  · exact h
  · exact h.addChild (c := .subgroup _) (Subgroup.each_new group placeholder)

theorem each_insertSubcommand (h : d.tree.Each p) {path : Path} {s : Subcommand} (hs : s.Each p)
    (hd : d.insertSubcommand path s = .ok d') : d'.tree.Each p := by
  obtain ⟨-, hd⟩ := insertSubcommand_ok_iff.1 hd
  rcases path with ⟨_ | group, sub⟩
  · obtain ⟨-, -, rfl⟩ := hd
    exact h.addChild (c := .subcommand s) hs
  · obtain ⟨e, g, t, he, -, -, ht, rfl⟩ := insertNested_ok_iff.1 hd
    refine (each_ensureSubgroup h he).changeSubgroup ht fun g₁ g₂ hg₁ hg₂ => ?_
    cases hg₂
    exact forall_mem_concat hg₁ hs

theorem each_addPlaceholder (h : d.tree.Each p) {path : Path}
    (hd : d.addPlaceholder path = .ok d') : d'.tree.Each p := by
  obtain ⟨name, -, hd⟩ := addPlaceholder_ok_iff.1 hd
  exact each_insertSubcommand h (Subcommand.each_new name placeholder) hd

theorem each_ensurePath (h : d.tree.Each p) {path : Path} (hd : d.ensurePath path = .ok d') :
    d'.tree.Each p := by
  rcases ensurePath_ok_iff.1 hd with ⟨-, -, rfl⟩ | ⟨-, -, rfl⟩ | ⟨-, -, hd⟩
  · exact h
  · exact h
  · exact each_addPlaceholder h hd

theorem each_addArgument (h : d.tree.Each p) {path : Path} {a : Argument}
    (ha : a.check = .ok () → p a) (hd : d.addArgument path a = .ok d') : d'.tree.Each p := by
  obtain ⟨hc, as, t, -, -, -, -, ht, rfl⟩ := addArgument_ok_iff.1 hd
  exact h.changeArguments ht fun _ has => forall_mem_concat has (ha hc)

theorem each_declare (h : d.tree.Each p) {declaration : Declaration}
    (hp : ∀ a ∈ declaration.arguments, a.check = .ok () → p a)
    (hd : d.declare declaration = .ok d') : d'.tree.Each p := by
  rcases declare_ok_iff.1 hd with ⟨-, hd⟩ | ⟨-, e, he, hd⟩
  · exact each_addPlaceholder h hd
  · exact foldlM_keeps (fun d => d.tree.Each p)
      (fun a ha _ _ hb hc => each_addArgument hb (hp a ha) hc) (each_ensurePath h he) hd

end Draft

variable {κ η : Type}

theorem Edit.apply_each (hp : Argument.Lasting p) {d d' : Draft κ} (h : d.tree.Each p) {e : Edit κ}
    (hd : e.apply d = .ok d') : d'.tree.Each p := by
  cases e with
  | description text =>
    obtain ⟨-, rfl⟩ := Draft.describe_ok_iff.1 hd
    exact h
  | localize locale text =>
    obtain ⟨-, -, rfl⟩ := Draft.localize_ok_iff.1 hd
    exact h
  | subgroup name text =>
    obtain ⟨-, -, -, -, rfl⟩ := Draft.addSubgroup_ok_iff.1 hd
    exact h.addChild (c := .subgroup _) (Subgroup.each_new name text)
  | subcommand path text =>
    obtain ⟨path, -, hd⟩ := bind_ok_iff.1 hd
    obtain ⟨name, -, -, hd⟩ := Draft.addSubcommand_ok_iff.1 hd
    exact Draft.each_insertSubcommand h (Subcommand.each_new name text) hd
  | argument text =>
    obtain ⟨declaration, hparse, hd⟩ := bind_ok_iff.1 hd
    exact Draft.each_declare h (hp.declared hparse) hd
  | argumentWith options =>
    obtain ⟨⟨path, a⟩, ha, hd⟩ := bind_ok_iff.1 hd
    exact Draft.each_declare h (List.forall_mem_singleton.2 (hp.described ha)) hd
  | require requirement =>
    rcases Draft.require_ok_iff.1 hd with ⟨q, -, rfl⟩ | ⟨reference, -, rfl⟩
    · exact h
    · exact h
  | channel reference =>
    obtain ⟨-, rfl⟩ := Draft.allowChannel_ok_iff.1 hd
    exact h
  | guild reference =>
    obtain ⟨-, rfl⟩ := Draft.addGuild_ok_iff.1 hd
    exact h
  | docs entries =>
    cases hd
    exact h
  | docsFile path content =>
    obtain ⟨entries, -, hd⟩ := bind_ok_iff.1 hd
    cases hd
    exact h
  | autocomplete key callback =>
    obtain ⟨-, ⟨-, -, rfl⟩ | ⟨-, rfl⟩⟩ := Draft.setCallback_ok_iff.1 hd
    · exact h
    · exact h

theorem Builder.edits_each (hp : Argument.Lasting p) :
    ∀ {es : List (Edit κ)} {b : Builder κ}, b.draft.tree.Each p → (b.edits es).draft.tree.Each p
  | [], _, h => h
  | e :: es, b, h => by
    change ((b.edit e).edits es).draft.tree.Each p
    refine edits_each hp ?_
    -- An edit that fails, or comes after a fault, leaves the draft as it was.
    rw [edit]
    split
    · exact h
    · split
      · rename_i d hd
        exact Edit.apply_each hp h hd
      · exact h

/-! ## Documentation -/

namespace Wording

variable {w : Wording}

theorem each_onNamed (hw : ∀ a, p a → p (w.onArgument a)) {name : String} {as : List Argument}
    (has : ∀ a ∈ as, p a) : ∀ a ∈ w.onNamed name as, p a := by
  rw [onNamed]
  generalize hc : changeFirst? _ _ as = changed
  rcases changed with _ | as'
  · exact has
  · obtain ⟨pre, a, a', post, rfl, -, ha, rfl⟩ := changeFirst?_eq_some hc
    cases ha
    exact forall_mem_replace has (hw a (has a mem_replaced))

theorem each_onTree (hw : ∀ a, p a → p (w.onArgument a)) {t t' : Tree} (ht : t.Each p)
    {key : String} {target : Target} (hc : w.onTree t key target = .ok t') : t'.Each p := by
  rcases target with _ | name | path | ⟨path, name⟩
  · cases hc
    exact ht
  · refine ht.changeSubgroup (onTree.found_ok_iff.1 hc) fun g g' hg hg' => ?_
    cases hg'
    exact hg
  · exact ht.changeSubcommand (onTree.found_ok_iff.1 hc) fun s hs => hs
  · rw [onTree] at hc
    split_ifs at hc
    exact ht.changeArguments (onTree.found_ok_iff.1 hc) fun _ has => each_onNamed hw has

end Wording

namespace Draft

variable {d d' : Draft κ}

theorem each_applyDocs (hp : Argument.Lasting p) (h : d.tree.Each p) (hd : d.applyDocs = .ok d') :
    d'.tree.Each p := by
  refine foldlM_keeps (fun d => d.tree.Each p) (fun doc _ b c hb hc => ?_) h hd
  simp only [applyDoc, bind_ok_iff] at hc
  obtain ⟨target, -, ⟨description, locales⟩, -, hc⟩ := hc
  split at hc
  · cases hc
    exact hb
  · simp only [bind_ok_iff, pure_ok_iff] at hc
    obtain ⟨t, ht, rfl⟩ := hc
    exact Wording.each_onTree (hp.documented _) hb ht

theorem each_finish (hp : Argument.Lasting p) (h : d.tree.Each p) {terminal : Terminal η}
    {s : Spec η κ} (hs : (d.finish terminal).2 = .ok s) : s.tree.Each p := by
  obtain ⟨documented, callbacks, handler, hprepare, -, rfl⟩ := finish_ok_iff.1 hs
  exact each_applyDocs hp h (prepare_ok_iff.1 hprepare).1

end Draft

theorem Builder.sealed_each (hp : Argument.Lasting p) {name description : String}
    {es : List (Edit κ)} {terminal : Draft.Terminal η} {s : Spec η κ}
    (h : (((new name description).edits es).finish terminal).2 = .ok s) : s.tree.Each p :=
  Draft.each_finish hp (edits_each hp Tree.Each.empty) (finish_ok_iff.1 h).2

end SlashCommands
