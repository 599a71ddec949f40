import SlashCommands.Proofs.DeclaredEntities
import SlashCommands.Proofs.TreeShape

/-!
# Reworded trees

A tree in which every node and every argument is worded anew, each by what is said of it
(`Tree.reworded`). Descriptions and localizations are all that differs: what is declared, what
references resolve to and which path has which arguments are the same (`Tree.entities_reworded`,
`Tree.resolve_reworded`, `Tree.arguments?_reworded`). Describing one target is rewording the tree
with nothing said of all others (`Wording.onTree_eq_reworded`), and rewording twice is rewording
once with what is said first and then (`Tree.reworded_reworded`).
-/

namespace SlashCommands

open Checked

/-! ## Wordings -/

namespace Wording

/-- Nothing is said. -/
def silent : Wording :=
  ⟨none, []⟩

/-- What is said later counts. -/
def andThen (w v : Wording) : Wording :=
  ⟨v.description.or w.description, w.locales ++ v.locales⟩

/-- Something is said of one target only. -/
def only (target : Target) (w : Wording) (x : Target) : Wording :=
  if x = target then w else silent

@[simp]
theorem silent_describe (old : String) : silent.describe old = old :=
  rfl

@[simp]
theorem silent_localize (old : Localizations) : silent.localize old = old :=
  rfl

@[simp]
theorem silent_onArgument (a : Argument) : silent.onArgument a = a :=
  rfl

@[simp]
theorem silent_onSubcommand (s : Subcommand) : silent.onSubcommand s = s :=
  rfl

@[simp]
theorem silent_onSubgroup (g : Subgroup) : silent.onSubgroup g = g :=
  rfl

theorem silent_andThen (w : Wording) : silent.andThen w = w := by
  rcases w with ⟨_ | _, _⟩ <;> rfl

theorem describe_andThen (w v : Wording) (old : String) :
    (w.andThen v).describe old = v.describe (w.describe old) := by
  rcases w with ⟨_ | _, _⟩ <;> rcases v with ⟨_ | _, _⟩ <;> rfl

theorem localize_andThen (w v : Wording) (old : Localizations) :
    (w.andThen v).localize old = v.localize (w.localize old) :=
  List.foldl_append

end Wording

/-! ## Trees -/

/-- The arguments at a path, each worded by what is said of it. -/
def rewordArguments (w : Target → Wording) (p : Path) (as : List Argument) : List Argument :=
  as.map fun a => (w (.argument p a.name)).onArgument a

/-- A subcommand with new words for itself and its arguments. -/
def Subcommand.reworded (w : Target → Wording) (p : Path) (s : Subcommand) : Subcommand :=
  { (w (.subcommand p)).onSubcommand s with arguments := rewordArguments w p s.arguments }

/-- A subgroup with new words for itself and all inside it. -/
def Subgroup.reworded (w : Target → Wording) (g : Subgroup) : Subgroup :=
  { (w (.subgroup g.name)).onSubgroup g with
    subcommands := g.subcommands.map fun s => s.reworded w (.nested g.name s.name) }

/-- A child with new words for all of it. -/
def Child.reworded (w : Target → Wording) : Child → Child
  | subcommand s => subcommand (s.reworded w (.ofSubcommand s.name))
  | subgroup g => subgroup (g.reworded w)

/-- The tree in which everything is worded by what is said of it. -/
def Tree.reworded (w : Target → Wording) (t : Tree) : Tree where
  arguments := rewordArguments w .root t.arguments
  children := t.children.map (Child.reworded w)

/-! ## Rewording twice, and not at all -/

section Laws

variable {w v : Target → Wording}

theorem rewordArguments_rewordArguments (p : Path) (as : List Argument) :
    rewordArguments v p (rewordArguments w p as)
      = rewordArguments (fun x => (w x).andThen (v x)) p as := by
  simp only [rewordArguments, List.map_map]
  refine List.map_congr_left fun a _ => ?_
  simp [Wording.onArgument, Wording.describe_andThen, Wording.localize_andThen]

theorem Subcommand.reworded_reworded (p : Path) (s : Subcommand) :
    (s.reworded w p).reworded v p = s.reworded (fun x => (w x).andThen (v x)) p := by
  simp [reworded, Wording.onSubcommand, Wording.describe_andThen, Wording.localize_andThen,
    rewordArguments_rewordArguments]

theorem Subgroup.reworded_reworded (g : Subgroup) :
    (g.reworded w).reworded v = g.reworded fun x => (w x).andThen (v x) := by
  have hnames : ∀ s : Subcommand, ∀ p, (s.reworded w p).name = s.name := fun _ _ => rfl
  simp [reworded, Wording.onSubgroup, Wording.describe_andThen, Wording.localize_andThen,
    Function.comp_def, hnames, Subcommand.reworded_reworded]

theorem Tree.reworded_reworded (t : Tree) :
    (t.reworded w).reworded v = t.reworded fun x => (w x).andThen (v x) := by
  simp only [reworded, rewordArguments_rewordArguments, List.map_map]
  congr 1
  refine List.map_congr_left fun c _ => ?_
  cases c with
  | subcommand s => exact congrArg Child.subcommand (s.reworded_reworded _)
  | subgroup g => exact congrArg Child.subgroup g.reworded_reworded

theorem rewordArguments_of_silent {p : Path} (h : ∀ name, w (.argument p name) = .silent)
    (as : List Argument) : rewordArguments w p as = as := by
  simp [rewordArguments, h]

theorem Subcommand.reworded_of_silent {p : Path} (h : w (.subcommand p) = .silent)
    (ha : ∀ name, w (.argument p name) = .silent) (s : Subcommand) : s.reworded w p = s := by
  rw [reworded, h, rewordArguments_of_silent ha]
  rfl

theorem Subgroup.reworded_of_silent {g : Subgroup}
    (h : ∀ s ∈ g.subcommands, s.reworded w (.nested g.name s.name) = s) :
    g.reworded w = (w (.subgroup g.name)).onSubgroup g := by
  rw [reworded, List.map_congr_left h, List.map_id']
  rfl

/-- What is said of the arguments of the command itself is not said of its children. -/
theorem Child.reworded_of_silent
    (h : ∀ x, x ≠ .command → (∀ name, x ≠ .argument .root name) → w x = .silent) (c : Child) :
    c.reworded w = c := by
  have hs : ∀ s : Subcommand, ∀ p, p ≠ .root → s.reworded w p = s := fun s p hp =>
    s.reworded_of_silent (h _ (by simp) (by simp)) fun _ => h _ (by simp) (by simp [hp])
  cases c with
  | subcommand s =>
    exact congrArg subcommand (hs s _ (by simp [Path.ofSubcommand, Path.root]))
  | subgroup g =>
    rw [reworded, Subgroup.reworded_of_silent fun s _ =>
      hs s _ (by simp [Path.nested, Path.root]), h _ (by simp) (by simp)]
    rfl

theorem Tree.children_of_silent
    (h : ∀ x, x ≠ .command → (∀ name, x ≠ .argument .root name) → w x = .silent) (t : Tree) :
    t.children.map (Child.reworded w) = t.children := by
  rw [List.map_congr_left fun c _ => c.reworded_of_silent h, List.map_id']

/-- What is said of the command itself is not said in its tree. -/
theorem Tree.reworded_of_silent (h : ∀ x, x ≠ .command → w x = .silent) (t : Tree) :
    t.reworded w = t := by
  rw [reworded, rewordArguments_of_silent fun _ => h _ (by simp),
    t.children_of_silent fun x hx _ => h x hx]

end Laws

/-! ## Changing what is found -/

/-- Where no two elements have the same key, changing the first one is changing all. -/
theorem getD_changeFirst? {α β : Type} {test : α → Bool} {change : α → Option α} {key : α → β}
    (k : β) (hk : ∀ x, test x = true → key x = k) : ∀ {xs : List α}, (xs.map key).Nodup →
      (changeFirst? test change xs).getD xs
        = xs.map fun x => if test x then (change x).getD x else x
  | [], _ => rfl
  | x :: xs, hd => by
    rw [List.map_cons, List.nodup_cons] at hd
    rw [changeFirst?, List.map_cons]
    split_ifs with hx
    · have hrest : ∀ z ∈ xs, (if test z then (change z).getD z else z) = z := by
        intro z hz
        refine if_neg fun htest => hd.1 (List.mem_map.2 ⟨z, hz, ?_⟩)
        exact (hk z htest).trans (hk x hx).symm
      rw [List.map_congr_left hrest, List.map_id']
      cases change x <;> rfl
    · rw [← getD_changeFirst? k hk hd.2]
      cases changeFirst? test change xs <;> rfl

theorem getD_changeNamed {α : Type} {nameOf : α → String} (name : String) (change : α → α)
    {xs : List α} (hd : (xs.map nameOf).Nodup) :
    (changeFirst? (fun x => nameOf x == name) (fun x => some (change x)) xs).getD xs
      = xs.map fun x => if nameOf x = name then change x else x := by
  rw [getD_changeFirst? name (fun x hx => by simpa using hx) hd]
  simp

/-- Changes every subcommand, by its path. -/
def Child.mapSubcommands (f : Path → Subcommand → Subcommand) : Child → Child
  | subcommand s => subcommand (f (.ofSubcommand s.name) s)
  | subgroup g => subgroup
    { g with subcommands := g.subcommands.map fun s => f (.nested g.name s.name) s }

namespace Tree

variable {t t' : Tree}

theorem getD_withChildren (changed : Option (List Child)) (t : Tree) :
    (changed.map fun children => { t with children }).getD t
      = { t with children := changed.getD t.children } := by
  cases changed <;> rfl

theorem getD_withSubcommands (changed : Option (List Subcommand)) (g : Subgroup) :
    (changed.map fun subcommands => { g with subcommands }).getD g
      = { g with subcommands := changed.getD g.subcommands } := by
  cases changed <;> rfl

theorem getD_changeSubgroup? (ht : (t.children.map Child.name).Nodup) (name : String)
    (change : Subgroup → Option Subgroup) : (t.changeSubgroup? name change).getD t
      = { t with children := t.children.map fun
          | .subgroup g => .subgroup (if g.name = name then (change g).getD g else g)
          | .subcommand s => .subcommand s } := by
  rw [changeSubgroup?, getD_withChildren, getD_changeFirst? name (fun c hc => ?_) ht]
  · congr 1
    refine List.map_congr_left fun c _ => ?_
    cases c with
    | subcommand s => rfl
    | subgroup g =>
      by_cases hn : g.name = name
      · cases hg : change g <;> simp [Child.isSubgroup, Child.subgroup?, hn, hg]
      · simp [Child.isSubgroup, Child.subgroup?, hn]
  · cases c with
    | subcommand s => cases hc
    | subgroup g => simpa [Child.isSubgroup, Child.subgroup?, Child.name] using hc

theorem getD_changeSubcommand? (ht : t.Sound) (p : Path) (change : Subcommand → Subcommand) :
    (t.changeSubcommand? p change).getD t = { t with
      children := t.children.map (Child.mapSubcommands fun q s => if q = p then change s else s) }
      := by
  -- No path of a subcommand is without its name.
  have hnone : ∀ group, (Path.mk group none) = p → (t.changeSubcommand? p change).getD t = t
      ∧ ∀ c, Child.mapSubcommands (fun q s => if q = p then change s else s) c = c := by
    rintro group rfl
    refine ⟨rfl, fun c => ?_⟩
    cases c <;> simp [Child.mapSubcommands, Path.ofSubcommand, Path.nested]
  rcases p with ⟨group, _ | sub⟩
  · obtain ⟨hsame, hall⟩ := hnone group rfl
    rw [hsame, List.map_congr_left fun c _ => hall c, List.map_id']
  rcases group with _ | group
  · rw [changeSubcommand?, getD_withChildren,
      getD_changeFirst? sub (fun c hc => ?_) ht.distinct]
    · congr 1
      refine List.map_congr_left fun c _ => ?_
      cases c with
      | subcommand s =>
        by_cases hn : s.name = sub <;>
          simp [Child.isSubcommand, Child.subcommand?, Child.mapSubcommands, Path.ofSubcommand, hn]
      | subgroup g =>
        simp [Child.isSubcommand, Child.subcommand?, Child.mapSubcommands, Path.nested]
    · cases c with
      | subcommand s => simpa [Child.isSubcommand, Child.subcommand?, Child.name] using hc
      | subgroup g => cases hc
  · rw [changeSubcommand?, getD_changeSubgroup? ht.distinct]
    congr 1
    refine List.map_congr_left fun c hc => ?_
    cases c with
    | subcommand s => simp [Child.mapSubcommands, Path.ofSubcommand]
    | subgroup g =>
      have hg : g.Sound := ht.each _ hc
      by_cases hn : g.name = group
      · have hsubcommands := getD_changeNamed sub change hg.distinct
        dsimp only
        rw [if_pos hn, getD_withSubcommands, hsubcommands]
        simp [Child.mapSubcommands, Path.nested, hn]
      · simp [Child.mapSubcommands, Path.nested, hn]

end Tree

/-! ## Describing one target -/

namespace Wording

variable {t t' : Tree} {w : Wording}

theorem onNamed_eq_map {name : String} {as : List Argument} (h : (as.map (·.name)).Nodup) :
    w.onNamed name as = as.map fun a => if a.name = name then w.onArgument a else a :=
  getD_changeNamed name w.onArgument h

theorem only_self (target : Target) (w : Wording) : only target w target = w :=
  if_pos rfl

theorem only_of_ne {target x : Target} (h : x ≠ target) (w : Wording) : only target w x = silent :=
  if_neg h

/-- What is said of one argument of a path rewords the arguments there. -/
theorem onNamed_eq_rewordArguments {p : Path} {name : String} {as : List Argument}
    (h : (as.map (·.name)).Nodup) :
    w.onNamed name as = rewordArguments (only (.argument p name) w) p as := by
  rw [onNamed_eq_map h, rewordArguments]
  refine List.map_congr_left fun a _ => ?_
  by_cases hn : a.name = name <;> simp [only, hn]

theorem rewordArguments_only_of_ne {p q : Path} {name : String} (h : q ≠ p)
    (as : List Argument) : rewordArguments (only (.argument p name) w) q as = as :=
  rewordArguments_of_silent (fun _ => only_of_ne (by simp [h]) w) as

/-- Where nothing is said of subgroups, subcommands are all that is changed. -/
theorem reworded_eq_mapSubcommands {v : Target → Wording}
    {f : Path → Subcommand → Subcommand} (hv : ∀ name, v (.subgroup name) = silent)
    (hf : ∀ q s, s.Sound → s.reworded v q = f q s) {c : Child} (hc : c.Sound) :
    c.reworded v = c.mapSubcommands f := by
  cases c with
  | subcommand s => exact congrArg Child.subcommand (hf _ s hc)
  | subgroup g =>
    have hg : g.Sound := hc
    rw [Child.reworded, Subgroup.reworded, hv,
      List.map_congr_left fun s hs => hf (.nested g.name s.name) s (hg.each s hs)]
    rfl

theorem reworded_changeSubcommand? (ht : t.Sound) {p : Path} {change : Subcommand → Subcommand}
    {v : Target → Wording} (hroot : ∀ name, v (.argument .root name) = silent)
    (hv : ∀ name, v (.subgroup name) = silent)
    (hf : ∀ q s, s.Sound → s.reworded v q = if q = p then change s else s)
    (h : t.changeSubcommand? p change = some t') : t' = t.reworded v := by
  have hchanged := Tree.getD_changeSubcommand? ht p change
  rw [h, Option.getD_some] at hchanged
  rw [hchanged, Tree.reworded, rewordArguments_of_silent hroot,
    List.map_congr_left fun c hc => reworded_eq_mapSubcommands hv hf (ht.each c hc)]

/-- To describe a target is to reword the tree with nothing said of all others. -/
theorem onTree_eq_reworded (ht : t.Sound) {key : String} {target : Target}
    (h : w.onTree t key target = .ok t') : t' = t.reworded (only target w) := by
  rcases target with _ | name | p | ⟨p, name⟩
  · cases h
    exact (t.reworded_of_silent (fun x hx => only_of_ne hx w)).symm
  · have hchanged := Tree.getD_changeSubgroup? ht.distinct name fun g => some (w.onSubgroup g)
    rw [onTree.found_ok_iff.1 h, Option.getD_some] at hchanged
    rw [hchanged, Tree.reworded, rewordArguments_of_silent fun _ => only_of_ne (by simp) w]
    congr 1
    refine List.map_congr_left fun c _ => ?_
    cases c with
    | subcommand s =>
      rw [Child.reworded, s.reworded_of_silent (only_of_ne (by simp) w)
        fun _ => only_of_ne (by simp) w]
    | subgroup g =>
      rw [Child.reworded, Subgroup.reworded_of_silent fun s _ => s.reworded_of_silent
        (only_of_ne (by simp) w) fun _ => only_of_ne (by simp) w]
      by_cases hn : g.name = name <;> simp [only, hn]
  · refine reworded_changeSubcommand? ht (fun _ => only_of_ne (by simp) w)
      (fun _ => only_of_ne (by simp) w) (fun q s _ => ?_) (onTree.found_ok_iff.1 h)
    rw [Subcommand.reworded, rewordArguments_of_silent fun _ => only_of_ne (by simp) w]
    by_cases hq : q = p <;> simp [only, hq, onSubcommand]
  · rw [onTree] at h
    split_ifs at h
    have hc := onTree.found_ok_iff.1 h
    rw [Tree.changeArguments?] at hc
    split_ifs at hc with hp
    · cases hc
      obtain rfl := Path.eq_root hp
      rw [onNamed_eq_rewordArguments ht.arguments.distinct, Tree.reworded,
        t.children_of_silent fun x _ hx => only_of_ne (hx name) w]
    · refine reworded_changeSubcommand? ht (fun _ => ?_) (fun _ => only_of_ne (by simp) w)
        (fun q s hs => ?_) hc
      · have hroot : Path.root ≠ p := by
          rintro rfl
          exact hp rfl
        exact only_of_ne (by simp [hroot]) w
      · rw [Subcommand.reworded, only_of_ne (by simp) w, silent_onSubcommand]
        by_cases hq : q = p
        · rw [if_pos hq, hq, onNamed_eq_rewordArguments hs.arguments.distinct]
        · rw [if_neg hq, rewordArguments_only_of_ne hq]

end Wording

/-! ## What stays the same -/

section Same

variable {w : Target → Wording}

theorem entry_rewordArguments (names : List String) (p q : Path) (as : List Argument) :
    (rewordArguments w q as).map (Argument.entry names p) = as.map (Argument.entry names p) := by
  rw [rewordArguments, List.map_map]
  rfl

theorem Subcommand.entities_reworded (names : List String) (p q : Path) (s : Subcommand) :
    (s.reworded w q).entities names p = s.entities names p :=
  congrArg (List.cons _) (entry_rewordArguments names p q s.arguments)

theorem Child.entities_reworded (c : Child) : (c.reworded w).entities = c.entities := by
  cases c with
  | subcommand s => exact s.entities_reworded _ _ _
  | subgroup g =>
    refine congrArg (List.cons _) ?_
    rw [Subgroup.reworded, List.flatMap_map]
    exact congrArg (fun f => g.subcommands.flatMap f)
      (funext fun s => s.entities_reworded _ _ _)

theorem Subgroup.subcommand?_reworded (g : Subgroup) (name : String) :
    (g.reworded w).subcommand? name
      = (g.subcommand? name).map (·.reworded w (.nested g.name name)) := by
  rw [subcommand?, reworded, List.find?_map]
  change ((g.subcommand? name).map fun s => s.reworded w (.nested g.name s.name)) = _
  rcases hs : g.subcommand? name with _ | s
  · rfl
  · obtain rfl : s.name = name := by simpa using List.find?_some hs
    rfl

namespace Tree

theorem entities_reworded (t : Tree) : (t.reworded w).entities = t.entities := by
  rw [entities, reworded, entry_rewordArguments, List.flatMap_map,
    funext fun c : Child => c.entities_reworded]
  rfl

theorem shape_reworded (t : Tree) : (t.reworded w).shape = t.shape := by
  rw [shape, reworded, List.map_map]
  refine List.map_congr_left fun c _ => ?_
  cases c with
  | subcommand s => rfl
  | subgroup g => simp [Child.reworded, Subgroup.reworded, Child.shape, Subcommand.reworded,
      Wording.onSubgroup, Wording.onSubcommand, Function.comp_def]

theorem resolve_reworded {t : Tree} (ht : t.Sound) (hr : (t.reworded w).Sound) (raw : String) :
    Reference.resolve (t.reworded w) raw = Reference.resolve t raw := by
  have hwords : Reference.resolveWords (t.reworded w) (Reference.words raw)
      = Reference.resolveWords t (Reference.words raw) := by
    refine Option.ext fun target => ?_
    rw [resolveWords_eq_some_iff hr, resolveWords_eq_some_iff ht, entities_reworded]
  rw [Reference.resolve, Reference.resolve, hwords]

theorem subcommand?_reworded (t : Tree) (name : String) : (t.reworded w).subcommand? name
    = (t.subcommand? name).map (·.reworded w (.ofSubcommand name)) := by
  rw [subcommand?, reworded, List.findSome?_map, subcommand?, List.map_findSome?]
  congr 1
  funext c
  cases c with
  | subcommand s =>
    by_cases hn : s.name = name <;> simp [Child.reworded, Child.subcommand?, Subcommand.reworded,
      Wording.onSubcommand, Option.filter, hn]
  | subgroup g => rfl

theorem subgroup?_reworded (t : Tree) (name : String) :
    (t.reworded w).subgroup? name = (t.subgroup? name).map (·.reworded w) := by
  rw [subgroup?, reworded, List.findSome?_map, subgroup?, List.map_findSome?]
  congr 1
  funext c
  cases c with
  | subcommand s => rfl
  | subgroup g =>
    by_cases hn : g.name = name <;> simp [Child.reworded, Child.subgroup?, Subgroup.reworded,
      Wording.onSubgroup, Option.filter, hn]

theorem nested?_reworded (t : Tree) (group sub : String) : (t.reworded w).nested? group sub
    = (t.nested? group sub).map (·.reworded w (.nested group sub)) := by
  rw [nested?, nested?, subgroup?_reworded]
  rcases hg : t.subgroup? group with _ | g
  · rfl
  · obtain ⟨-, rfl⟩ := subgroup?_eq_some hg
    rw [Option.map_some, Option.bind_some, Option.bind_some, Subgroup.subcommand?_reworded]

theorem arguments?_reworded (t : Tree) (p : Path) :
    (t.reworded w).arguments? p = (t.arguments? p).map (rewordArguments w p) := by
  rcases p with ⟨_ | group, _ | sub⟩
  · rfl
  · simp only [arguments?, subcommand?_reworded, Option.map_map]
    rfl
  · rfl
  · simp only [arguments?, nested?_reworded, Option.map_map]
    rfl

/-- What is to be completed does not depend on the words. -/
theorem isStarred_reworded (t : Tree) (slot : Slot) :
    Draft.isStarred (t.reworded w) slot = Draft.isStarred t slot := by
  rw [Draft.isStarred, Draft.isStarred, arguments?_reworded]
  rcases t.arguments? slot.1 with _ | as
  · rfl
  · rw [Option.map_some, Option.getD_some, Option.getD_some, rewordArguments, List.find?_map,
      Option.any_map]
    rfl

end Tree

end Same

end SlashCommands
