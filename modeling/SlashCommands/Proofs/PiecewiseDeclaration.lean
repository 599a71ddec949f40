import SlashCommands.Proofs.DraftEdits
import SlashCommands.Proofs.TreeShape

/-!
# Declaring piece by piece

A draft is open at a path if arguments can be added there without declaring anything first
(`Draft.OpenAt`). Declaring arguments opens the path (`Draft.openAt_of_ensurePath`), and adding one
keeps it open, because it leaves the names of all nodes alone (`Draft.OpenAt.addArgument`). So a
second declaration for the same path finds it as the first one left it, and it makes no difference
whether the arguments come at once, in two parts or one by one (`Draft.declare_piecewise`,
`Draft.declare_one_by_one`).
-/

namespace SlashCommands

open Checked

namespace Draft

variable {κ : Type} {d d' : Draft κ} {p : Path}

/-! ## Open paths -/

/-- Arguments can be added at the path as it is. -/
def OpenAt (p : Path) (d : Draft κ) : Prop :=
  if p.isRoot then d.tree.children = [] else d.tree.contains p = true

theorem OpenAt.ensurePath (h : d.OpenAt p) : d.ensurePath p = .ok d := by
  unfold OpenAt at h
  rw [ensurePath_ok_iff]
  split_ifs at h with hp
  · exact .inl ⟨hp, h, rfl⟩
  · exact .inr (.inl ⟨by simpa using hp, h, rfl⟩)

theorem OpenAt.addArgument {a : Argument} (h : d.OpenAt p) (hd : d.addArgument p a = .ok d') :
    d'.OpenAt p := by
  obtain ⟨-, as, t, -, -, -, -, ht, rfl⟩ := addArgument_ok_iff.1 hd
  have hshape := Tree.shape_changeArguments ht
  unfold OpenAt at h ⊢
  split_ifs at h ⊢ with hp
  · exact List.map_eq_nil_iff.1 (hshape.trans (List.map_eq_nil_iff.2 h))
  · exact (Tree.contains_of_shape hshape p).trans h

theorem contains_of_addPlaceholder (h : d.addPlaceholder p = .ok d') :
    d'.tree.contains p = true := by
  obtain ⟨name, hname, h⟩ := addPlaceholder_ok_iff.1 h
  obtain ⟨-, h⟩ := insertSubcommand_ok_iff.1 h
  rcases p with ⟨_ | group, sub⟩
  · obtain rfl : sub = some name := hname
    obtain ⟨-, -, rfl⟩ := h
    change ((d.addChild _).tree.subcommand? name).isSome = true
    rw [Tree.isSome_subcommand?]
    simp [addChild, Tree.shape, Child.shape, Subcommand.new]
  · obtain rfl : sub = some name := hname
    obtain ⟨e, g, t, -, hg, -, ht, rfl⟩ := insertNested_ok_iff.1 h
    have hfound := Tree.subgroup?_of_changeSubgroup? (fun _ _ hc => by cases hc; rfl) ht
    simp [Tree.contains, Tree.nested?, hfound, hg, Subgroup.subcommand?, Subcommand.new]

/-- Declaring a path opens it. -/
theorem openAt_of_ensurePath (h : d.ensurePath p = .ok d') : d'.OpenAt p := by
  unfold OpenAt
  rcases ensurePath_ok_iff.1 h with ⟨hp, hc, rfl⟩ | ⟨hp, hc, rfl⟩ | ⟨hp, -, h⟩
  · rwa [if_pos hp]
  · rwa [if_neg (by simp [hp])]
  · rw [if_neg (by simp [hp])]
    exact contains_of_addPlaceholder h

/-! ## One declaration or several -/

theorem declare_of_ne_nil {as : List Argument} (h : as ≠ []) : d.declare ⟨p, as⟩
    = d.ensurePath p >>= fun e => as.foldlM (fun e a => e.addArgument p a) e := by
  rw [declare, if_neg (by simpa using h)]

theorem OpenAt.declare {as : List Argument} (h : d.OpenAt p) (hne : as ≠ []) :
    d.declare ⟨p, as⟩ = as.foldlM (fun e a => e.addArgument p a) d := by
  rw [declare_of_ne_nil hne, h.ensurePath]
  rfl

theorem OpenAt.addArguments {as : List Argument} (h : d.OpenAt p)
    (hd : as.foldlM (fun e a => e.addArgument p a) d = .ok d') : d'.OpenAt p :=
  foldlM_keeps (OpenAt p) (fun _ _ _ _ hb hc => hb.addArgument hc) h hd

theorem declare_append (d : Draft κ) (p : Path) {xs ys : List Argument} (hxs : xs ≠ [])
    (hys : ys ≠ []) :
    d.declare ⟨p, xs ++ ys⟩ = d.declare ⟨p, xs⟩ >>= fun e => e.declare ⟨p, ys⟩ := by
  have hne : xs ++ ys ≠ [] := List.append_ne_nil_of_left_ne_nil hxs ys
  rw [declare_of_ne_nil hne, declare_of_ne_nil hxs, bind_assoc]
  refine bind_congr_ok fun e he => ?_
  rw [List.foldlM_append]
  refine bind_congr_ok fun f hf => ?_
  exact (((openAt_of_ensurePath he).addArguments hf).declare hys).symm

theorem declare_bare_first (hp : p.isRoot = false) (hc : d.tree.contains p = false)
    {xs : List Argument} (hxs : xs ≠ []) :
    d.declare ⟨p, xs⟩ = d.declare ⟨p, []⟩ >>= fun e => e.declare ⟨p, xs⟩ := by
  have hopen : d.ensurePath p = d.declare ⟨p, []⟩ := by
    rw [ensurePath, if_neg (by simp [hp]), if_neg (by simp [hc])]
    rfl
  rw [declare_of_ne_nil hxs, hopen]
  refine bind_congr_ok fun e he => ?_
  rw [← hopen] at he
  exact ((openAt_of_ensurePath he).declare hxs).symm

theorem declare_one_by_one (p : Path) : ∀ {xs : List Argument} {d : Draft κ}, xs ≠ [] →
    d.declare ⟨p, xs⟩ = xs.foldlM (fun e a => e.declare ⟨p, [a]⟩) d
  | [], _, h => absurd rfl h
  | [x], d, _ => by simp
  | x :: y :: xs, d, _ => by
    rw [← List.singleton_append, declare_append d p (by simp) (by simp), List.singleton_append,
      List.foldlM_cons]
    exact bind_congr_ok fun e _ => declare_one_by_one p (by simp)

/-- A declaration in two parts is the declaration as a whole: they leave the same draft, or they
have the same fault. Where the path is not declared, its own declaration may come first. -/
theorem declare_piecewise (d : Draft κ) (p : Path) :
    (∀ xs ys, xs ≠ [] → ys ≠ [] →
      d.declare ⟨p, xs ++ ys⟩ = d.declare ⟨p, xs⟩ >>= fun e => e.declare ⟨p, ys⟩)
      ∧ (p.isRoot = false → d.tree.contains p = false → ∀ xs, xs ≠ [] →
        d.declare ⟨p, xs⟩ = d.declare ⟨p, []⟩ >>= fun e => e.declare ⟨p, xs⟩) :=
  ⟨fun _ _ hxs hys => d.declare_append p hxs hys, fun hp hc _ hxs => declare_bare_first hp hc hxs⟩

/-- An optional argument of a subcommand that is not declared. -/
def optionalNote : Declaration :=
  ⟨.nested "team" "add", [.plain "note" .string false]⟩

/-- Behind it, an optional argument is added, and a required one is refused, at once or later. The
subcommand may be declared before its argument. -/
theorem optionalNote_piecewise :
    (∃ e, (Draft.new "staff" "Staff" : Draft Unit).declare optionalNote = .ok e
      ∧ ∃ f, e.declare { optionalNote with arguments := [.plain "member" .user false] } = .ok f
      ∧ f.tree.nodes.map (·.2.map (·.name)) = [[], ["note", "member"]])
    ∧ (∃ fault, (Draft.new "staff" "Staff" : Draft Unit).declare
        { optionalNote with
          arguments := optionalNote.arguments ++ [.plain "member" .user true] } = .error fault
      ∧ ((Draft.new "staff" "Staff" : Draft Unit).declare optionalNote >>= fun e =>
        e.declare { optionalNote with arguments := [.plain "member" .user true] })
          = .error fault)
    ∧ ((Draft.new "staff" "Staff" : Draft Unit).declare { optionalNote with arguments := [] } >>=
      fun e => e.declare optionalNote).toOption.isSome = true := by
  have hparts := fun required => (declare_piecewise (Draft.new "staff" "Staff" : Draft Unit)
    optionalNote.path).1 optionalNote.arguments [.plain "member" .user required]
      (by decide) (List.cons_ne_nil _ _)
  refine ⟨?_, ?_, ?_⟩
  · have h : (((Draft.new "staff" "Staff" : Draft Unit).declare ⟨optionalNote.path,
        optionalNote.arguments ++ [.plain "member" .user false]⟩).toOption.map fun f =>
          f.tree.nodes.map (·.2.map (·.name))) = some [[], ["note", "member"]] := by
      decide +kernel
    obtain ⟨f, hf, hnames⟩ := Option.map_eq_some_iff.1 h
    rw [toOption_eq_some_iff, hparts, bind_ok_iff] at hf
    obtain ⟨e, he, hf⟩ := hf
    exact ⟨e, he, f, hf, hnames⟩
  · have h : ((Draft.new "staff" "Staff" : Draft Unit).declare ⟨optionalNote.path,
        optionalNote.arguments ++ [.plain "member" .user true]⟩).toOption.isSome = false := by
      decide +kernel
    rcases hd : (Draft.new "staff" "Staff" : Draft Unit).declare ⟨optionalNote.path,
        optionalNote.arguments ++ [.plain "member" .user true]⟩ with fault | f
    · exact ⟨fault, hd, (hparts true).symm.trans hd⟩
    · rw [hd] at h
      cases h
  · have hbare := (declare_piecewise (Draft.new "staff" "Staff" : Draft Unit)
      optionalNote.path).2 rfl rfl optionalNote.arguments (by decide)
    have h : ((Draft.new "staff" "Staff" : Draft Unit).declare ⟨optionalNote.path,
        optionalNote.arguments⟩).toOption.isSome = true := by
      decide +kernel
    rwa [hbare] at h

end Draft

end SlashCommands
