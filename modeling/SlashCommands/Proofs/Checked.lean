import Mathlib.Data.List.Basic
import Mathlib.Data.List.Forall2
import Mathlib.Tactic.SplitIfs
import SlashCommands.Argument
import SlashCommands.Platform.Locale

/-!
# What a passed check says

A sequence of checks passes exactly if each of them does (`bind_ok_iff`, `forM_ok_iff`), and each
check of its own passes exactly if what it looks at is in order. A list is checked element by
element (`mapM_ok_iff`), and the first element with a fault decides (`mapM_error_iff`); one that is
read cannot be if one of its elements cannot (`mapM_eq_none_iff`). What every step of a checked fold
keeps, the fold keeps (`foldlM_keeps`).
-/

namespace SlashCommands

namespace Checked

@[simp]
theorem bind_ok_iff {ε α β : Type} {x : Except ε α} {f : α → Except ε β} {b : β} :
    (x >>= f) = .ok b ↔ ∃ a, x = .ok a ∧ f a = .ok b := by
  constructor
  · intro h
    rcases x with fault | a
    · cases h
    · exact ⟨a, rfl, h⟩
  · rintro ⟨a, rfl, h⟩
    exact h

@[simp]
theorem pure_ok_iff {ε α : Type} {a b : α} : (pure a : Except ε α) = .ok b ↔ a = b :=
  ⟨fun h => Except.ok.inj h, fun h => congrArg Except.ok h⟩

/-- What follows a passed check. -/
@[simp]
theorem exists_unit_ok_iff {ε : Type} {x : Except ε Unit} {p : Prop} :
    (∃ u, x = .ok u ∧ p) ↔ x = .ok () ∧ p :=
  ⟨fun ⟨_, h⟩ => h, fun h => ⟨(), h⟩⟩

@[simp]
theorem exists_ok_iff {ε : Type} {x : Except ε Unit} : (∃ u, x = .ok u) ↔ x = .ok () :=
  ⟨fun ⟨_, h⟩ => h, fun h => ⟨(), h⟩⟩

/-- It matters only what follows a result. -/
theorem bind_congr_ok {ε α β : Type} {x : Except ε α} {f g : α → Except ε β}
    (h : ∀ a, x = .ok a → f a = g a) : x >>= f = x >>= g := by
  rcases x with fault | a
  · rfl
  · exact h a rfl

theorem map_ok_iff {ε α β : Type} {x : Except ε α} {f : α → β} {b : β} :
    x.map f = .ok b ↔ ∃ a, x = .ok a ∧ f a = b := by
  rcases x with fault | a <;> simp [Except.map]

@[simp]
theorem fmap_ok_iff {ε α β : Type} {x : Except ε α} {f : α → β} {b : β} :
    f <$> x = .ok b ↔ ∃ a, x = .ok a ∧ f a = b :=
  map_ok_iff

theorem toOption_eq_some_iff {ε α : Type} {x : Except ε α} {a : α} :
    x.toOption = some a ↔ x = .ok a := by
  rcases x with fault | b <;> simp [Except.toOption]

@[simp]
theorem throw_ne_ok {ε α : Type} {e : ε} {a : α} : (throw e : Except ε α) ≠ .ok a := by
  rintro ⟨⟩

theorem forM_ok_iff {α : Type} {f : α → Checked Unit} :
    ∀ {xs : List α}, xs.forM f = .ok () ↔ ∀ x ∈ xs, f x = .ok ()
  | [] => by simp
  | x :: xs => by
    have ih : xs.forM f = .ok () ↔ ∀ x ∈ xs, f x = .ok () := forM_ok_iff
    simp only [List.forM_eq_forM] at ih
    simp [ih]

theorem mapM_ok_iff {ε α β : Type} {f : α → Except ε β} :
    ∀ {xs : List α} {ys : List β},
      xs.mapM f = .ok ys ↔ List.Forall₂ (fun x y => f x = .ok y) xs ys
  | [], ys => by
    rw [List.mapM_nil, pure_ok_iff, List.forall₂_nil_left_iff, eq_comm]
  | x :: xs, ys => by
    simp only [List.mapM_cons, bind_ok_iff, pure_ok_iff, mapM_ok_iff, List.forall₂_cons_left_iff]
    constructor
    · rintro ⟨y, hy, zs, hzs, rfl⟩
      exact ⟨y, zs, hy, hzs, rfl⟩
    · rintro ⟨y, zs, hy, hzs, rfl⟩
      exact ⟨y, hy, zs, hzs, rfl⟩

/-- The fault is that of the first element that has one. -/
theorem mapM_error_iff {ε α β : Type} {f : α → Except ε β} {fault : ε} :
    ∀ {xs : List α}, xs.mapM f = .error fault ↔ ∃ before x after, xs = before ++ x :: after
      ∧ (∀ y ∈ before, ∃ b, f y = .ok b) ∧ f x = .error fault
  | [] => by simp [pure, Except.pure]
  | x :: xs => by
    rw [List.mapM_cons]
    rcases hx : f x with found | b
    · constructor
      · intro h
        cases h
        exact ⟨[], x, xs, rfl, by simp, hx⟩
      · rintro ⟨before, y, after, hxs, hbefore, hy⟩
        rcases before with _ | ⟨z, before⟩
        · obtain ⟨rfl, -⟩ := List.cons.inj hxs
          rw [hx] at hy
          exact congrArg Except.error (Except.error.inj hy)
        · obtain ⟨rfl, -⟩ := List.cons.inj hxs
          obtain ⟨b, hb⟩ := hbefore x List.mem_cons_self
          rw [hx] at hb
          cases hb
    · have hrest : (Except.ok b >>= fun b => xs.mapM f >>= fun bs => pure (b :: bs))
          = .error fault ↔ xs.mapM f = .error fault := by
        rcases xs.mapM f with found | bs <;> simp [bind, Except.bind, pure, Except.pure]
      rw [hrest, mapM_error_iff]
      constructor
      · rintro ⟨before, y, after, rfl, hbefore, hy⟩
        exact ⟨x :: before, y, after, rfl, List.forall_mem_cons.2 ⟨⟨b, hx⟩, hbefore⟩, hy⟩
      · rintro ⟨before, y, after, hxs, hbefore, hy⟩
        rcases before with _ | ⟨z, before⟩
        · obtain ⟨rfl, -⟩ := List.cons.inj hxs
          rw [hx] at hy
          cases hy
        · obtain ⟨rfl, rfl⟩ := List.cons.inj hxs
          exact ⟨before, y, after, rfl, (List.forall_mem_cons.1 hbefore).2, hy⟩

theorem mem_of_mapM_ok {ε α β : Type} {f : α → Except ε β} {y : β} :
    ∀ {xs : List α} {ys : List β}, xs.mapM f = .ok ys → y ∈ ys → ∃ x ∈ xs, f x = .ok y
  | [], ys, h, hy => by
    rw [List.mapM_nil, pure_ok_iff] at h
    simp [← h] at hy
  | x :: xs, ys, h, hy => by
    simp only [List.mapM_cons, bind_ok_iff, pure_ok_iff] at h
    obtain ⟨z, hz, zs, hzs, rfl⟩ := h
    rcases List.mem_cons.1 hy with rfl | hy
    · exact ⟨x, List.mem_cons_self, hz⟩
    · obtain ⟨x', hx', hf⟩ := mem_of_mapM_ok hzs hy
      exact ⟨x', List.mem_cons_of_mem _ hx', hf⟩

theorem exists_ok_of_mapM_ok {ε α β : Type} {f : α → Except ε β} :
    ∀ {xs : List α} {ys : List β}, xs.mapM f = .ok ys → ∀ x ∈ xs, ∃ y, f x = .ok y
  | [], _, _ => by simp
  | x :: xs, ys, h => by
    simp only [List.mapM_cons, bind_ok_iff, pure_ok_iff] at h
    obtain ⟨z, hz, zs, hzs, rfl⟩ := h
    exact List.forall_mem_cons.2 ⟨⟨z, hz⟩, exists_ok_of_mapM_ok hzs⟩

theorem length_of_mapM_ok {ε α β : Type} {f : α → Except ε β} {xs : List α} {ys : List β}
    (h : xs.mapM f = .ok ys) : ys.length = xs.length :=
  (mapM_ok_iff.1 h).length_eq.symm

theorem mapM_map_ok {ε α β : Type} {f : β → Except ε α} {g : α → β} :
    ∀ {xs : List α}, (∀ x ∈ xs, f (g x) = .ok x) → (xs.map g).mapM f = .ok xs
  | [], _ => rfl
  | x :: xs, h => by
    have ih := mapM_map_ok fun y hy => h y (List.mem_cons_of_mem _ hy)
    simp only [List.map_cons, List.mapM_cons, bind_ok_iff, pure_ok_iff]
    exact ⟨x, h x List.mem_cons_self, xs, ih, rfl⟩

theorem foldlM_keeps {α β : Type} {f : β → α → Checked β} (P : β → Prop) :
    ∀ {xs : List α} {b c : β}, (∀ x ∈ xs, ∀ b c, P b → f b x = .ok c → P c) → P b →
      xs.foldlM f b = .ok c → P c
  | [], b, c, _, hb, h => by
    rw [List.foldlM_nil, pure_ok_iff] at h
    exact h ▸ hb
  | x :: xs, b, c, hf, hb, h => by
    rw [List.foldlM_cons, bind_ok_iff] at h
    obtain ⟨d, hd, h⟩ := h
    exact foldlM_keeps P (fun y hy => hf y (List.mem_cons_of_mem _ hy))
      (hf x List.mem_cons_self b d hb hd) h

end Checked

theorem mapM_eq_none_iff {α β : Type} {f : α → Option β} :
    ∀ {xs : List α}, xs.mapM f = none ↔ ∃ x ∈ xs, f x = none
  | [] => by simp
  | x :: xs => by
    have ih := @mapM_eq_none_iff α β f xs
    rw [List.mapM_cons, List.exists_mem_cons_iff, ← ih]
    rcases f x with _ | y
    · simp
    · rcases xs.mapM f with _ | ys <;> simp

/-- A name that the rule for names passes, whatever it is the name of. -/
def Named (name : String) : Prop :=
  ∀ what, Check.slashName name what = .ok ()

/-- A text of the length that a description may have. -/
def Described (text : String) : Prop :=
  1 ≤ text.length ∧ text.length ≤ 100

/-- Each locale is one that the platform has, with a text of the right length. -/
def Translated (l : Localizations) : Prop :=
  ∀ e ∈ l.entries, isLocale e.1 = true ∧ Described e.2

namespace Check

@[simp]
theorem present_ok_iff {α : Type} {value : Option α} {what : String} {v : α} :
    present value what = .ok v ↔ value = some v := by
  cases value <;> simp [present]

@[simp]
theorem notBlank_ok_iff {text what : String} :
    notBlank text what = .ok () ↔ Text.isBlankText text = false := by
  simp [notBlank]

@[simp]
theorem notDuplicate_ok_iff {isPresent : Bool} {what name : String} :
    notDuplicate isPresent what name = .ok () ↔ isPresent = false := by
  simp [notDuplicate]

@[simp]
theorem exclusive_ok_iff {firstSet secondSet : Bool} {subject first second : String} :
    exclusive firstSet secondSet subject first second = .ok () ↔
      (firstSet = true → secondSet = false) := by
  simp [exclusive]

@[simp]
theorem count_ok_iff {value minimum maximum : Nat} {what : String} :
    count value what minimum maximum = .ok () ↔ minimum ≤ value ∧ value ≤ maximum := by
  unfold count
  split_ifs
  · simp only [false_iff]
    omega
  · simp only [false_iff]
    omega
  · simp only [true_iff]
    omega

@[simp]
theorem rule_ok_iff {violated : Bool} {text : String} :
    rule violated text = .ok () ↔ violated = false := by
  simp [rule]

@[simp]
theorem known_ok_iff {found : Bool} {what reference : String} :
    known found what reference = .ok () ↔ found = true := by
  simp [known]

/-- Only the fault of the rule for names depends on what is named. -/
@[simp]
theorem slashName_ok_iff {name what : String} : slashName name what = .ok () ↔ Named name := by
  have h : ∀ other, slashName name what = .ok () → slashName name other = .ok () := by
    intro other
    unfold slashName
    split_ifs <;> simp
  exact ⟨fun hn other => h other hn, fun hn => hn what⟩

@[simp]
theorem description_ok_iff {text what : String} :
    description text what = .ok () ↔ Described text := by
  simp [description, Described, maxDescription]

end Check

end SlashCommands
