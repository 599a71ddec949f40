import SlashCommands.Proofs.ArgumentText
import SlashCommands.Proofs.TreeArguments

/-!
# Literals of the declared type

An argument enters a command from its declaration text or with options, and either way its literals
have been coerced to its type (`Argument.coerced_of_parse`, `Argument.coerced_of_toArgument`).
Coercion alone leaves, say, a text among the choices of an integer; the check refuses that, and
takes integers for doubles, which coercion has removed. Together they make every literal one of the
declared type (`Argument.typed_of_check`), which lasts until the command is sealed
(`Argument.typed_lasting`).
-/

namespace SlashCommands

open Checked

/-! ## Coercion -/

namespace Number

theorem coerce_coerce (type : ArgumentType) (n : Number) :
    (n.coerce type).coerce type = n.coerce type := by
  cases n with
  | int v =>
    rw [coerce]
    split_ifs with h
    · rfl
    · rw [coerce, if_neg h]
  | float x => rfl

end Number

namespace Choice

theorem coerce_coerce (type : ArgumentType) (c : Choice) :
    (c.coerce type).coerce type = c.coerce type := by
  cases c with
  | integer v =>
    rw [coerce]
    split_ifs with h
    · rfl
    · rw [coerce, if_neg h]
  | float x => rfl
  | string s => rfl

theorem coerce_type (c : Choice) : c.coerce c.type = c := by
  cases c <;> rfl

theorem type_ofNumber {n : Number} : (ofNumber n).type = .integer ↔ n.isInteger = true := by
  cases n <;> simp [ofNumber, type, Number.isInteger]

/-- A literal that fits a type, and is what coercing it there gives, is of that type. -/
theorem type_of_fits {c : Choice} {type : ArgumentType} (hf : c.fits type = true)
    (hc : c.coerce type = c) : c.type = type := by
  cases c <;> cases type <;> simp_all [fits, coerce, Choice.type]

/-- The same of a bound: integers have integer bounds, and doubles no bound left to coerce. -/
theorem type_of_numeric {n : Number} {type : ArgumentType} (ht : type.isNumeric = true)
    (hc : n.coerce type = n) (hi : type = .integer → n.isInteger = true) :
    (ofNumber n).type = type := by
  cases n <;> cases type <;>
    simp_all [ArgumentType.isNumeric, Number.coerce, Number.isInteger, ofNumber, Choice.type]

/-- Choices are read at the type that all of them have. -/
theorem type_of_infer {literals : List (List Char)} {c : Choice} (h : c ∈ (infer literals).2) :
    c.type = (infer literals).1 := by
  rcases hl : literals.mapM Number.ofChars? with _ | numbers
  · rw [infer_texts hl] at h ⊢
    obtain ⟨cs, -, rfl⟩ := List.mem_map.1 h
    rfl
  · by_cases hint : numbers.all Number.isInteger = true
    · rw [infer_integers hl hint] at h ⊢
      obtain ⟨n, hn, rfl⟩ := List.mem_map.1 h
      exact type_ofNumber.2 (List.all_eq_true.1 hint n hn)
    · rw [infer_floats hl hint] at h ⊢
      obtain ⟨n, -, rfl⟩ := List.mem_map.1 h
      rfl

end Choice

namespace Argument

/-- Coercing the literals to the type of the argument changes none of them. -/
structure Coerced (a : Argument) : Prop where
  choices : ∀ c ∈ a.choices, c.coerce a.type = c
  min : ∀ n ∈ a.min, n.coerce a.type = n
  max : ∀ n ∈ a.max, n.coerce a.type = n

theorem coerced_coerceLiterals (a : Argument) : a.coerceLiterals.Coerced where
  choices := by
    intro c hc
    obtain ⟨c, -, rfl⟩ := List.mem_map.1 hc
    exact c.coerce_coerce a.type
  min := by
    intro n hn
    obtain ⟨n, -, rfl⟩ := Option.map_eq_some_iff.1 hn
    exact n.coerce_coerce a.type
  max := by
    intro n hn
    obtain ⟨n, -, rfl⟩ := Option.map_eq_some_iff.1 hn
    exact n.coerce_coerce a.type

theorem ReadFrom.coerced {inside : List Char} {a : Argument} (h : a.ReadFrom inside) :
    a.Coerced := by
  cases h with
  | choices name required _ _ =>
    refine ⟨fun c hc => ?_, by rintro n ⟨⟩, by rintro n ⟨⟩⟩
    have ht := Choice.type_of_infer hc
    exact ht ▸ c.coerce_type
  | bounds name required autocomplete hmin hmax _ =>
    exact ⟨by rintro c ⟨⟩, fun n hn => (hmin n hn).coerce_eq, fun n hn => (hmax n hn).coerce_eq⟩
  | lengths => exact ⟨by rintro c ⟨⟩, by rintro n ⟨⟩, by rintro n ⟨⟩⟩
  | type => exact ⟨by rintro c ⟨⟩, by rintro n ⟨⟩, by rintro n ⟨⟩⟩

/-- Options may change the type after the text was read, so they coerce the literals again. -/
theorem coerced_of_toArgument {o : ArgumentOptions} {path : Path} {a : Argument}
    (h : o.toArgument = .ok (path, a)) : a.Coerced := by
  simp only [ArgumentOptions.toArgument, bind_ok_iff, pure_ok_iff, Prod.mk.injEq] at h
  obtain ⟨-, -, b, -, c, -, -, rfl⟩ := h
  exact coerced_coerceLiterals _

theorem coerced_of_parse {raw : String} {d : Declaration} (h : Declaration.parse raw = .ok d) :
    ∀ a ∈ d.arguments, a.Coerced := fun _ ha =>
  have ⟨_, hb⟩ := Declaration.exists_readArgument_of_parse h ha
  (Declaration.readFrom_of_readArgument hb).1.coerced

/-! ## What the check leaves -/

/-- Literals are of the type of the argument, limits stand only where it has a use for them, and
choices exclude everything else that narrows the input. -/
structure Typed (a : Argument) : Prop where
  choices : ∀ c ∈ a.choices, c.type = a.type
  min : ∀ n ∈ a.min, (Choice.ofNumber n).type = a.type
  max : ∀ n ∈ a.max, (Choice.ofNumber n).type = a.type
  lengths : a.hasLength = true → a.type = .string
  short : ∀ n, n ∈ a.minLength ∨ n ∈ a.maxLength → n.toNat ≤ 6000
  ordered : ∀ lo ∈ a.minLength, ∀ hi ∈ a.maxLength, lo ≤ hi
  alone : a.hasChoices = true →
    a.autocomplete = false ∧ a.hasBounds = false ∧ a.hasLength = false

theorem checkChoices_ok_iff {a : Argument} : a.checkChoices = .ok () ↔
    a.type.takesChoices = true ∧ Check.choices a.choices a.name = .ok ()
      ∧ ∀ c ∈ a.choices, c.fits a.type = true := by
  simp only [checkChoices, bind_ok_iff, exists_unit_ok_iff, Check.rule_ok_iff, Bool.not_eq_false']
  refine and_congr_right fun _ => and_congr_right fun _ => ?_
  split
  · rename_i bad hf
    refine iff_of_false (by simp) fun hall => ?_
    have hbad := List.find?_some hf
    simp [hall bad (List.mem_of_find?_eq_some hf)] at hbad
  · rename_i hf
    simpa using hf

theorem forall_mem_of_any_eq_false {α : Type} {keep : α → Bool} {o : Option α}
    (h : o.any (fun x => !keep x) = false) : ∀ x ∈ o, keep x = true := by
  rintro x rfl
  simpa using h

theorem checkBounds_ok {a : Argument} (h : a.checkBounds = .ok ()) :
    (a.hasBounds = true → a.type.isNumeric = true)
      ∧ (a.type = .integer →
        (∀ n ∈ a.min, n.isInteger = true) ∧ ∀ n ∈ a.max, n.isInteger = true) := by
  rw [checkBounds, bind_ok_iff, exists_unit_ok_iff, Check.rule_ok_iff] at h
  obtain ⟨hnumeric, h⟩ := h
  dsimp only at h
  have hint : (a.type == .integer
      && (a.min.any (!·.isInteger) || a.max.any (!·.isInteger))) = false := by
    -- The range is looked at only between two bounds; this rule comes last either way.
    split at h <;>
    · obtain ⟨-, -, h⟩ := bind_ok_iff.1 h
      exact Check.rule_ok_iff.1 h
  refine ⟨fun hb => by simpa [hb] using hnumeric, fun ht => ?_⟩
  simp only [ht, beq_self_eq_true, Bool.true_and, Bool.or_eq_false_iff] at hint
  exact ⟨forall_mem_of_any_eq_false hint.1, forall_mem_of_any_eq_false hint.2⟩

theorem checkLengthBound_ok_iff {a : Argument} {label : String} {bound : Option UInt16} :
    a.checkLengthBound label bound = .ok () ↔ ∀ n ∈ bound, n.toNat ≤ 6000 := by
  cases bound <;> simp [checkLengthBound, Check.maxLength]

theorem checkLengths_ok {a : Argument} (h : a.checkLengths = .ok ()) :
    (a.hasLength = true → a.type = .string)
      ∧ (∀ n, n ∈ a.minLength ∨ n ∈ a.maxLength → n.toNat ≤ 6000)
      ∧ ∀ lo ∈ a.minLength, ∀ hi ∈ a.maxLength, lo ≤ hi := by
  simp only [checkLengths, bind_ok_iff, exists_unit_ok_iff, Check.rule_ok_iff,
    checkLengthBound_ok_iff] at h
  obtain ⟨hstring, hlo, hhi, h⟩ := h
  refine ⟨fun hl => by simpa [hl] using hstring, ?_, ?_⟩
  · rintro n (hn | hn)
    · exact hlo n hn
    · exact hhi n hn
  · intro lo hl hi hh
    rw [hl, hh] at h
    exact (Check.count_ok_iff.1 h).1

theorem hasChoices_of_mem {a : Argument} {c : Choice} (h : c ∈ a.choices) :
    a.hasChoices = true := by
  simpa [hasChoices] using List.ne_nil_of_mem h

theorem check_ok {a : Argument} (h : a.check = .ok ()) :
    (a.hasChoices = true → a.autocomplete = false ∧ a.hasBounds = false ∧ a.hasLength = false)
      ∧ (∀ c ∈ a.choices, c.fits a.type = true) ∧ a.checkBounds = .ok ()
      ∧ a.checkLengths = .ok () := by
  obtain ⟨-, -, h⟩ := check_ok_iff.1 h
  simp only [bind_ok_iff, exists_unit_ok_iff, Check.exclusive_ok_iff] at h
  obtain ⟨hauto, hbounds, hlength, h⟩ := h
  refine ⟨fun hc => ⟨hauto hc, hbounds hc, hlength hc⟩, ?_⟩
  -- Without choices none of them is looked at, and none is there.
  by_cases hc : a.hasChoices = true
  · rw [if_pos hc] at h
    simp only [bind_ok_iff, exists_unit_ok_iff] at h
    exact ⟨(checkChoices_ok_iff.1 h.1).2.2, h.2⟩
  · rw [if_neg hc] at h
    simp only [bind_ok_iff, exists_unit_ok_iff] at h
    exact ⟨fun c hm => absurd (hasChoices_of_mem hm) hc, h⟩

theorem typed_of_check {a : Argument} (h : a.check = .ok ()) (hc : a.Coerced) : a.Typed := by
  obtain ⟨halone, hfits, hb, hl⟩ := check_ok h
  obtain ⟨hnumeric, hint⟩ := checkBounds_ok hb
  obtain ⟨hlengths, hshort, hordered⟩ := checkLengths_ok hl
  have hmin : ∀ n ∈ a.min, a.type.isNumeric = true := fun n hn =>
    hnumeric (by rw [hasBounds, hn]; rfl)
  have hmax : ∀ n ∈ a.max, a.type.isNumeric = true := fun n hn =>
    hnumeric (by rw [hasBounds, hn]; exact Bool.or_true _)
  exact
    { choices := fun c hm => Choice.type_of_fits (hfits c hm) (hc.choices c hm)
      min := fun n hn =>
        Choice.type_of_numeric (hmin n hn) (hc.min n hn) fun ht => (hint ht).1 n hn
      max := fun n hn =>
        Choice.type_of_numeric (hmax n hn) (hc.max n hn) fun ht => (hint ht).2 n hn
      lengths := hlengths
      short := hshort
      ordered := hordered
      alone := halone }

theorem typed_lasting : Lasting Typed where
  declared h a ha hc := typed_of_check hc (coerced_of_parse h a ha)
  described h hc := typed_of_check hc (coerced_of_toArgument h)
  documented _ _ h := ⟨h.choices, h.min, h.max, h.lengths, h.short, h.ordered, h.alone⟩

end Argument

end SlashCommands
