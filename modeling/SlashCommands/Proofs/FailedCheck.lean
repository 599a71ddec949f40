import SlashCommands.Proofs.FirstFault

/-!
# What a failed check says

A sequence of checks fails with a fault exactly if one of them does, after those before it have
passed (`bind_error_iff`), and each check of its own fails with one fault of its kind. Most of them
never report that something was not found (`Finds`), and neither do sequences, lists and folds of
such checks (`finds_bind`, `finds_mapM`, `finds_foldlM`).
-/

namespace SlashCommands

namespace Checked

variable {ε α β : Type}

theorem bind_error_iff {x : Except ε α} {f : α → Except ε β} {fault : ε} :
    (x >>= f) = .error fault ↔ x = .error fault ∨ ∃ a, x = .ok a ∧ f a = .error fault := by
  rcases x with found | a <;> simp [bind, Except.bind]

theorem map_error_iff {x : Except ε α} {f : α → β} {fault : ε} :
    x.map f = .error fault ↔ x = .error fault := by
  rcases x with found | a <;> simp [Except.map]

theorem exists_of_forM_error {f : α → Checked Unit} {fault : Fault} :
    ∀ {xs : List α}, xs.forM f = .error fault → ∃ x ∈ xs, f x = .error fault
  | [], h => by cases h
  | x :: xs, h => by
    rcases bind_error_iff.1 (show (f x >>= fun _ => xs.forM f) = .error fault from h) with
      h | ⟨-, -, h⟩
    · exact ⟨x, List.mem_cons_self, h⟩
    · obtain ⟨y, hy, h⟩ := exists_of_forM_error h
      exact ⟨y, List.mem_cons_of_mem _ hy, h⟩

/-- Where a checked fold goes through, each of its steps does. -/
theorem exists_ok_of_foldlM_ok {f : β → α → Checked β} :
    ∀ {xs : List α} {b c : β}, xs.foldlM f b = .ok c → ∀ x ∈ xs, ∃ b c, f b x = .ok c
  | [], _, _, _ => by simp
  | x :: xs, b, c, h => by
    rw [List.foldlM_cons, bind_ok_iff] at h
    obtain ⟨d, hd, h⟩ := h
    exact List.forall_mem_cons.2 ⟨⟨b, d, hd⟩, exists_ok_of_foldlM_ok h⟩

end Checked

namespace Check

variable {fault : Fault}

theorem rule_error_iff {violated : Bool} {text : String} :
    rule violated text = .error fault ↔ violated = true ∧ fault = .rule text := by
  cases violated <;> simp [rule, eq_comm]

theorem known_error_iff {found : Bool} {what reference : String} :
    known found what reference = .error fault ↔
      found = false ∧ fault = .notFound what reference := by
  cases found <;> simp [known, eq_comm]

theorem notDuplicate_error_iff {isPresent : Bool} {what name : String} :
    notDuplicate isPresent what name = .error fault ↔
      isPresent = true ∧ fault = .duplicate what name := by
  cases isPresent <;> simp [notDuplicate, eq_comm]

/-- A number of things with no lower limit can only be too large. -/
theorem count_error_iff {value maximum : Nat} {what : String} :
    count value what 0 maximum = .error fault ↔
      maximum < value ∧ fault = .aboveMaximum what (.ofNat value) (.ofNat maximum) := by
  rw [count, if_neg (Nat.not_lt_zero value)]
  split_ifs with h <;> simp [h, eq_comm]

theorem not_described_of_error {text what : String} (h : description text what = .error fault) :
    ¬ Described text := by
  intro hd
  rw [description_ok_iff.2 hd] at h
  cases h

end Check

/-! ## Never for something that is not found -/

namespace Checked

variable {α β : Type}

/-- It may fail, but not because something was not found. -/
def Finds (x : Checked α) : Prop :=
  ∀ what reference, x ≠ .error (.notFound what reference)

theorem finds_ok (a : α) : Finds (.ok a) := by
  rintro what reference ⟨⟩

theorem finds_error {fault : Fault} (h : ∀ what reference, fault ≠ .notFound what reference) :
    Finds (.error fault : Checked α) :=
  fun what reference he => h what reference (Except.error.inj he)

theorem finds_ite {p : Prop} [Decidable p] {x y : Checked α} (hx : Finds x) (hy : Finds y) :
    Finds (if p then x else y) := by
  split_ifs
  · exact hx
  · exact hy

theorem finds_bind {x : Checked α} {f : α → Checked β} (hx : Finds x)
    (hf : ∀ a, x = .ok a → Finds (f a)) : Finds (x >>= f) := by
  intro what reference h
  rcases bind_error_iff.1 h with h | ⟨a, ha, h⟩
  · exact hx what reference h
  · exact hf a ha what reference h

theorem finds_forM {f : α → Checked Unit} {xs : List α} (h : ∀ x ∈ xs, Finds (f x)) :
    Finds (xs.forM f) := by
  intro what reference he
  obtain ⟨x, hx, he⟩ := exists_of_forM_error he
  exact h x hx what reference he

theorem finds_mapM {f : α → Checked β} {xs : List α} (h : ∀ x ∈ xs, Finds (f x)) :
    Finds (xs.mapM f) := by
  intro what reference he
  obtain ⟨before, x, after, rfl, -, he⟩ := mapM_error_iff.1 he
  exact h x (by simp) what reference he

/-- The steps of a fold find what they look for as long as something holds that they keep. -/
theorem finds_foldlM (P : β → Prop) {f : β → α → Checked β} {xs : List α} {b : β}
    (h : ∀ x ∈ xs, ∀ b, P b → Finds (f b x)) (hf : ∀ x ∈ xs, ∀ b c, P b → f b x = .ok c → P c)
    (hb : P b) : Finds (xs.foldlM f b) := by
  intro what reference he
  obtain ⟨before, x, after, c, rfl, hc, he⟩ := foldlM_error_iff.1 he
  have hP := foldlM_keeps P (fun y hy => hf y (List.mem_append_left _ hy)) hb hc
  exact h x (by simp) c hP what reference he

end Checked

namespace Check

open Checked

theorem finds_present {α : Type} (value : Option α) (what : String) :
    Finds (present value what) := by
  cases value
  · exact finds_error nofun
  · exact finds_ok _

theorem finds_notBlank (text what : String) : Finds (notBlank text what) :=
  finds_ite (finds_error nofun) (finds_ok _)

theorem finds_notDuplicate (isPresent : Bool) (what name : String) :
    Finds (notDuplicate isPresent what name) :=
  finds_ite (finds_error nofun) (finds_ok _)

theorem finds_exclusive (firstSet secondSet : Bool) (subject first second : String) :
    Finds (exclusive firstSet secondSet subject first second) :=
  finds_ite (finds_error nofun) (finds_ok _)

theorem finds_range (value : Binary64) (what : String) (minimum maximum : Binary64) :
    Finds (range value what minimum maximum) :=
  finds_ite (finds_error nofun) (finds_ite (finds_error nofun) (finds_ok _))

theorem finds_count (value : Nat) (what : String) (minimum maximum : Nat) :
    Finds (count value what minimum maximum) :=
  finds_ite (finds_error nofun) (finds_ite (finds_error nofun) (finds_ok _))

theorem finds_rule (violated : Bool) (text : String) : Finds (rule violated text) :=
  finds_ite (finds_error nofun) (finds_ok _)

theorem finds_slashName (name what : String) : Finds (slashName name what) :=
  finds_ite (finds_error nofun) (finds_ite (finds_error nofun) (finds_ok _))

theorem finds_description (text what : String) : Finds (description text what) :=
  finds_count _ _ _ _

theorem finds_choices (values : List Choice) (subject : String) :
    Finds (choices values subject) :=
  finds_bind (finds_count _ _ _ _) fun _ _ => finds_forM fun _ _ => finds_count _ _ _ _

end Check

end SlashCommands
