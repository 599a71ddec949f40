import SlashCommands.Proofs.PayloadShape

/-!
# The order of bounds

The check of an argument compares its bounds as doubles. Doubles are ordered that way, and so are
integers that doubles tell apart: of a sealed command, an integer argument has its bounds in order
unless both become one double, which takes integers of `2 ^ 53` and more
(`Builder.sealed_ordered`). Beyond, the bounds may be in the wrong order
(`Builder.wideEdits_not_ordered`).
-/

namespace SlashCommands

open Checked

namespace Check

theorem range_ok {value minimum maximum : Binary64} {what : String}
    (h : range value what minimum maximum = .ok ()) : value.lt minimum = false := by
  unfold range at h
  split_ifs at h with hlt
  simpa using hlt

end Check

/-! ## Integers as doubles -/

namespace Binary64

theorem magnitude_ofInt (i : Int) : (ofInt i).magnitude = nearestMagnitude i.natAbs 1 := by
  have hle := nearestMagnitude_le rfl i.natAbs 1
  have hlt : infinity < Nat.pow 2 63 := by decide
  exact Nat.mod_eq_of_lt (Nat.lt_of_le_of_lt hle hlt)

theorem isNaN_ofInt (i : Int) : (ofInt i).isNaN = false := by
  have hle := nearestMagnitude_le rfl i.natAbs 1
  simpa [isNaN, magnitude_ofInt] using hle

theorem key_ofInt_of_nonneg {i : Int} (h : 0 ≤ i) :
    (ofInt i).key = nearestMagnitude i.natAbs 1 := by
  have hs : (ofInt i).negative = false := by simpa [ofInt, nearest, ofMagnitude] using h
  simp [key, hs, magnitude_ofInt]

theorem key_ofInt_of_neg {i : Int} (h : i < 0) :
    (ofInt i).key = -(nearestMagnitude i.natAbs 1 : Int) := by
  have hs : (ofInt i).negative = true := by simpa [ofInt, nearest, ofMagnitude] using h
  simp [key, hs, magnitude_ofInt]

theorem isNaN_of_isFinite {x : Binary64} (h : x.isFinite = true) : x.isNaN = false := by
  simp only [isFinite, isNaN, decide_eq_true_eq, decide_eq_false_iff_not] at h ⊢
  omega

theorem key_le_of_lt_eq_false {x y : Binary64} (hx : x.isNaN = false) (hy : y.isNaN = false)
    (h : y.lt x = false) : x.key ≤ y.key := by
  simp only [lt, hx, hy, Bool.not_false, Bool.true_and, decide_eq_false_iff_not] at h
  omega

/-- Two integers that doubles do not tell apart. -/
structure Merged (i j : Int) : Prop where
  same : ofInt i = ofInt j
  left : 2 ^ 53 ≤ i.natAbs
  right : 2 ^ 53 ≤ j.natAbs

theorem Merged.symm {i j : Int} (h : Merged i j) : Merged j i :=
  ⟨h.same.symm, h.right, h.left⟩

theorem merged_of_natAbs_lt {i j : Int} (hs : i < 0 ↔ j < 0) (hlt : i.natAbs < j.natAbs)
    (h : nearestMagnitude j.natAbs 1 ≤ nearestMagnitude i.natAbs 1) : Merged i j := by
  have he : nearestMagnitude i.natAbs 1 = nearestMagnitude j.natAbs 1 :=
    Nat.le_antisymm (nearestMagnitude_mono rfl Nat.one_pos hlt.le) h
  have hbig := le_of_nearestMagnitude_eq rfl hlt he
  exact ⟨by simp only [ofInt, nearest, he, hs], hbig, by omega⟩

/-- What the order of the doubles says of the integers. -/
theorem le_or_merged {i j : Int} (h : (ofInt i).key ≤ (ofInt j).key) : i ≤ j ∨ Merged i j := by
  by_contra hn
  obtain ⟨hlt, hm⟩ := not_or.1 hn
  by_cases hj : 0 ≤ j
  · rw [key_ofInt_of_nonneg (by omega), key_ofInt_of_nonneg hj] at h
    exact hm (merged_of_natAbs_lt (by omega) (by omega) (by omega)).symm
  by_cases hi : i < 0
  · rw [key_ofInt_of_neg hi, key_ofInt_of_neg (by omega)] at h
    exact hm (merged_of_natAbs_lt (by omega) (by omega) (by omega))
  · -- Only zero becomes zero, so the negative one stays below the other.
    rw [key_ofInt_of_nonneg (by omega), key_ofInt_of_neg (by omega)] at h
    have hzero : nearestMagnitude 0 1 = nearestMagnitude j.natAbs 1 := by
      rw [nearestMagnitude_zero rfl]
      omega
    have hpos : 0 < j.natAbs := by omega
    have := le_of_nearestMagnitude_eq rfl hpos hzero
    omega

end Binary64

/-! ## Bounds of arguments -/

/-- A range has its bounds in order; integers that become one double need not be. -/
structure Number.Ordered (least greatest : Option Number) : Prop where
  integers : ∀ lo hi, least = some (.int lo) → greatest = some (.int hi) →
    lo ≤ hi ∨ Binary64.Merged lo.toInt hi.toInt
  floats : ∀ lo hi, least = some (.float lo) → greatest = some (.float hi) →
    lo.isFinite = true → hi.isFinite = true → lo.key ≤ hi.key

namespace Argument

/-- The bounds of an argument are in order. -/
def Ordered (a : Argument) : Prop :=
  Number.Ordered a.min a.max

theorem lt_eq_false_of_checkBounds {a : Argument} {lo hi : Number} (h : a.checkBounds = .ok ())
    (hlo : a.min = some lo) (hhi : a.max = some hi) :
    hi.toBinary64.lt lo.toBinary64 = false := by
  unfold checkBounds at h
  rw [bind_ok_iff, hlo, hhi] at h
  obtain ⟨-, -, h⟩ := h
  dsimp only at h
  obtain ⟨_, hrange, -⟩ := bind_ok_iff.1 h
  exact Check.range_ok hrange

theorem ordered_of_check {a : Argument} (h : a.check = .ok ()) : a.Ordered where
  integers lo hi hlo hhi := by
    have hlt := lt_eq_false_of_checkBounds (check_ok h).2.2.1 hlo hhi
    rw [Int64.le_iff_toInt_le]
    exact Binary64.le_or_merged
      (Binary64.key_le_of_lt_eq_false (Binary64.isNaN_ofInt _) (Binary64.isNaN_ofInt _) hlt)
  floats lo hi hlo hhi hl hh := by
    have hlt := lt_eq_false_of_checkBounds (check_ok h).2.2.1 hlo hhi
    exact Binary64.key_le_of_lt_eq_false (Binary64.isNaN_of_isFinite hl)
      (Binary64.isNaN_of_isFinite hh) hlt

theorem ordered_lasting : Lasting Ordered where
  declared _ _ _ hc := ordered_of_check hc
  described _ hc := ordered_of_check hc
  documented _ _ h := ⟨h.integers, h.floats⟩

end Argument

/-! ## Bounds of options -/

namespace OptionPayload

/-- The bounds an option is registered with are in order. -/
def Ordered (o : OptionPayload) : Prop :=
  Number.Ordered o.minValue o.maxValue

theorem From.ordered {o : OptionPayload} (h : From Argument.Ordered o) : o.Ordered := by
  cases h with
  | argument h => exact h
  | subcommand => exact ⟨by rintro lo hi ⟨⟩, by rintro lo hi ⟨⟩⟩
  | subgroup => exact ⟨by rintro lo hi ⟨⟩, by rintro lo hi ⟨⟩⟩

end OptionPayload

/-! ## Sealed commands -/

namespace Builder

variable {η κ : Type}

/-- Every argument of a sealed command has its bounds in order, as far as doubles tell, and so has
every option that is registered. -/
theorem sealed_ordered {name description : String} {es : List (Edit κ)}
    {terminal : Draft.Terminal η} {s : Spec η κ}
    (h : (((new name description).edits es).finish terminal).2 = .ok s) :
    s.tree.Each Argument.Ordered
      ∧ ∀ o, OptionPayload.Among s.payload.options o → o.Ordered := by
  have heach : s.tree.Each Argument.Ordered := sealed_each Argument.ordered_lasting h
  exact ⟨heach, fun o ho => (from_of_sealed h heach ho).ordered⟩

/-- Bounds that both become `2 ^ 53`. -/
def wideEdits : List (Edit Unit) :=
  [.argument "<n: 9007199254740993 <= x <= 9007199254740992>"]

theorem exists_sealed_wideEdits :
    ∃ s, (((new "ping" "Pings").edits wideEdits).finish (.action ())).2 = .ok s
      ∧ (s.tree.arguments.map fun a => (a.type, a.min, a.max))
        = [(.integer, some (.int 9007199254740993), some (.int 9007199254740992))]
      ∧ (s.payload.options.map fun o => (o.minValue, o.maxValue))
        = [(some (.int 9007199254740993), some (.int 9007199254740992))] := by
  have h : ((((new "ping" "Pings").edits wideEdits).finish (.action ())).2.toOption.map fun s =>
      (s.tree.arguments.map fun a => (a.type, a.min, a.max),
        s.payload.options.map fun o => (o.minValue, o.maxValue)))
      = some ([(.integer, some (.int 9007199254740993), some (.int 9007199254740992))],
        [(some (.int 9007199254740993), some (.int 9007199254740992))]) := by
    decide +kernel
  rcases hs : (((new "ping" "Pings").edits wideEdits).finish (.action ())).2 with fault | s
  · rw [hs] at h
    cases h
  · rw [hs] at h
    simp only [Except.toOption, Option.map_some, Option.some.injEq, Prod.mk.injEq] at h
    exact ⟨s, rfl, h⟩

theorem wideEdits_sealed_ordered :
    ∃ s, (((new "ping" "Pings").edits wideEdits).finish (.action ())).2 = .ok s
      ∧ s.tree.Each Argument.Ordered
      ∧ ∀ o, OptionPayload.Among s.payload.options o → o.Ordered := by
  obtain ⟨s, hs, -⟩ := exists_sealed_wideEdits
  exact ⟨s, hs, sealed_ordered hs⟩

/-- The least value is above the greatest, and so it is registered. -/
theorem wideEdits_not_ordered :
    ∃ s, (((new "ping" "Pings").edits wideEdits).finish (.action ())).2 = .ok s
      ∧ ∃ lo hi : Int64, hi < lo
        ∧ (∃ a ∈ s.tree.arguments, a.type = .integer ∧ a.min = some (.int lo)
          ∧ a.max = some (.int hi))
        ∧ ∃ o ∈ s.payload.options, o.minValue = some (.int lo) ∧ o.maxValue = some (.int hi) := by
  obtain ⟨s, hs, harguments, hoptions⟩ := exists_sealed_wideEdits
  obtain ⟨a, ha, heq⟩ := List.map_eq_singleton_iff.1 harguments
  obtain ⟨o, ho, hpayload⟩ := List.map_eq_singleton_iff.1 hoptions
  rw [Prod.mk.injEq, Prod.mk.injEq] at heq
  rw [Prod.mk.injEq] at hpayload
  exact ⟨s, hs, _, _, by decide, ⟨a, by simp [ha], heq⟩, o, by simp [ho], hpayload⟩

end Builder

end SlashCommands
