import SlashCommands.Proofs.BoundScan
import SlashCommands.Proofs.Checked

/-!
# Bounds that read back

What a bound expression can declare (`Bounds.declared_of_read`): a whole number or a finite double
on one side of the value at least, or a length on one side at least. A bound expression as an
argument writes it declares the same bounds (`Bounds.read_value`, `Bounds.read_length`).
-/

namespace SlashCommands

open Checked

/-- A number that may bound an argument of the type. -/
def Number.Bounds (type : ArgumentType) : Number → Prop
  | int _ => type = .integer
  | float x => type = .float ∧ x.isFinite = true

namespace Bounds

/-! ## Reading what is written -/

variable {α : Type} {lo hi : Option α} {m : Measure} {number : α → Number} {text : α → List Char}

theorem readNumeral_spelled {n : Number} {cs : List Char} (h : n.Spells cs) (side : Side) :
    readNumeral ⟨m, side, cs⟩ = .ok (side, n) := by
  rw [readNumeral, h.reads]

theorem mapM_readNumeral_written (hlo : ∀ x ∈ lo, (number x).Spells (text x))
    (hhi : ∀ x ∈ hi, (number x).Spells (text x)) :
    ((lo.map text).toList.map (Comparison.mk m .min)
        ++ (hi.map text).toList.map (Comparison.mk m .max)).mapM readNumeral
      = .ok ((lo.map number).toList.map (Prod.mk Side.min)
        ++ (hi.map number).toList.map (Prod.mk Side.max)) := by
  rcases lo with _ | lo <;> rcases hi with _ | hi
  · rfl
  · simp [readNumeral_spelled (hhi hi rfl)]
  · simp [readNumeral_spelled (hlo lo rfl)]
  · simp [readNumeral_spelled (hlo lo rfl), readNumeral_spelled (hhi hi rfl)]

theorem numeral_of_mem_map (h : ∀ x ∈ lo, Numeral (text x)) : ∀ cs ∈ lo.map text, Numeral cs := by
  intro cs hcs
  obtain ⟨x, hx, rfl⟩ := Option.mem_map.1 hcs
  exact h x hx

/-- What a written bound expression is read as, up to the test of a length. -/
theorem read_written (hlo : ∀ x ∈ lo, (number x).Spells (text x))
    (hhi : ∀ x ∈ hi, (number x).Spells (text x)) (h : lo.isSome ∨ hi.isSome) (name : String)
    (required : Bool) :
    read name (written m (lo.map text) (hi.map text)) required = match m with
      | .length => do
        let minLength ← lengthBound name (lo.map number)
        let maxLength ← lengthBound name (hi.map number)
        return { Argument.plain name .string required with minLength, maxLength }
      | .value =>
        let integers := ((lo.map number).toList ++ (hi.map number).toList).all Number.isInteger
        let type := if integers then ArgumentType.integer else .float
        return Argument.coerceLiterals { Argument.plain name type required with
          min := lo.map number, max := hi.map number } := by
  have hwlo := numeral_of_mem_map fun x hx => (hlo x hx).numeral
  have hwhi := numeral_of_mem_map fun x hx => (hhi x hx).numeral
  have hsome : (lo.map text).isSome ∨ (hi.map text).isSome := by simpa using h
  rw [read]
  simp only [comparisons_written hwlo hwhi hsome, leftover_written hwlo hwhi hsome,
    mapM_readNumeral_written hlo hhi]
  rcases lo with _ | lo <;> rcases hi with _ | hi
  · simp at h
  · cases m <;> rfl
  · cases m <;> rfl
  · cases m <;> rfl

theorem toList_boundExpression {measure : String} (hm : measure.toList = [m.char])
    (text : α → String) (lo hi : Option α) :
    (Argument.boundExpression measure (lo.map text) (hi.map text)).toList
      = written m (lo.map fun n => (text n).toList) (hi.map fun n => (text n).toList) := by
  rcases lo with _ | lo <;> rcases hi with _ | hi <;>
    simp [Argument.boundExpression, written, comparison, hm]

end Bounds

/-! ## Bounds on the value -/

namespace Number.Bounds

variable {type : ArgumentType} {n : Number}

theorem type_cases (h : n.Bounds type) : type = .integer ∨ type = .float := by
  cases n with
  | int v => exact .inl h
  | float x => exact .inr h.1

theorem isInteger_iff (h : n.Bounds type) : n.isInteger = true ↔ type = .integer := by
  cases n with
  | int v => simp [Number.isInteger, show type = .integer from h]
  | float x => simp [Number.isInteger, h.1]

theorem coerce_eq (h : n.Bounds type) : n.coerce type = n := by
  cases n with
  | int v => simp [Number.coerce, show type = .integer from h]
  | float x => rfl

theorem spells (h : n.Bounds type) : n.Spells (Argument.boundText type n).toList := by
  cases n with
  | int v =>
    have ht : type ≠ .float := by
      rw [show type = .integer from h]
      decide
    rw [Argument.boundText, if_neg ht]
    exact spells_int v
  | float x => exact spells_float h.2

/-- The type that bounds are given when they are read. -/
theorem type_eq {ns : List Number} (hne : ns ≠ []) (h : ∀ n ∈ ns, n.Bounds type) :
    (if ns.all Number.isInteger then ArgumentType.integer else .float) = type := by
  obtain ⟨n, hn⟩ := List.exists_mem_of_ne_nil ns hne
  by_cases ht : type = .integer
  · have hall : ns.all Number.isInteger = true :=
      List.all_eq_true.2 fun n hn => (h n hn).isInteger_iff.2 ht
    rw [if_pos hall, ht]
  · have hall : ¬ ns.all Number.isInteger = true := fun hall =>
      ht ((h n hn).isInteger_iff.1 (List.all_eq_true.1 hall n hn))
    rw [if_neg hall, (h n hn).type_cases.resolve_left ht]

/-- Numbers that are read together get a type that they may all bound. -/
theorem of_coerce {ns : List Number}
    (hfin : ∀ n ∈ ns, ∀ x, n = .float x → x.isFinite = true) (hn : n ∈ ns)
    (ht : type = if ns.all Number.isInteger then .integer else .float) :
    (n.coerce type).Bounds type := by
  subst ht
  split_ifs with hall
  · cases n with
    | int v => rfl
    | float x => exact absurd (List.all_eq_true.1 hall _ hn) (by simp [Number.isInteger])
  · cases n with
    | int v => exact ⟨rfl, Binary64.isFinite_ofInt v⟩
    | float x => exact ⟨rfl, hfin _ hn x rfl⟩

theorem map_coerce {o : Option Number} (h : ∀ n ∈ o, n.Bounds type) :
    o.map (Number.coerce type) = o := by
  cases o with
  | none => rfl
  | some n => rw [Option.map_some, (h n rfl).coerce_eq]

end Number.Bounds

theorem Argument.coerceLiterals_eq_self {a : Argument} (hmin : ∀ n ∈ a.min, n.Bounds a.type)
    (hmax : ∀ n ∈ a.max, n.Bounds a.type) (hc : a.choices = []) : a.coerceLiterals = a := by
  rw [coerceLiterals, Number.Bounds.map_coerce hmin, Number.Bounds.map_coerce hmax, hc,
    List.map_nil, ← hc]

namespace Bounds

/-- The bound of an argument of the type, as it is written. -/
def valueText (type : ArgumentType) (n : Number) : List Char :=
  (Argument.boundText type n).toList

theorem numeral_valueText {type : ArgumentType} {o : Option Number}
    (h : ∀ n ∈ o, n.Bounds type) : ∀ cs ∈ o.map (valueText type), Numeral cs :=
  numeral_of_mem_map fun n hn => (h n hn).spells.numeral

theorem read_value {type : ArgumentType} {min max : Option Number}
    (hmin : ∀ n ∈ min, n.Bounds type) (hmax : ∀ n ∈ max, n.Bounds type)
    (h : min.isSome ∨ max.isSome) (name : String) (required : Bool) :
    read name (written .value (min.map (valueText type)) (max.map (valueText type))) required
      = .ok { Argument.plain name type required with min, max } := by
  have hspell : ∀ n : Number, n.Bounds type → (id n : Number).Spells (valueText type n) :=
    fun n hn => hn.spells
  rw [read_written (fun n hn => hspell n (hmin n hn)) (fun n hn => hspell n (hmax n hn)) h,
    Option.map_id, id, id]
  have hmem : ∀ n ∈ min.toList ++ max.toList, n.Bounds type := by
    intro n hn
    rcases List.mem_append.1 hn with hn | hn
    · exact hmin n (Option.mem_toList.1 hn)
    · exact hmax n (Option.mem_toList.1 hn)
  have hne : min.toList ++ max.toList ≠ [] := by
    rcases h with h | h <;> simp [Option.isSome_iff_ne_none.1 h]
  simp only [Number.Bounds.type_eq hne hmem]
  exact congrArg Except.ok (Argument.coerceLiterals_eq_self hmin hmax rfl)

/-! ## Bounds on the length -/

theorem toInt_ofNat_toNat (n : UInt16) : (Int64.ofNat n.toNat).toInt = n.toNat := by
  have hn : n.toNat < 65536 := n.toNat_lt
  exact Int64.toInt_ofNat_of_lt (by omega)

theorem lengthBound_toNat (name : String) (n : UInt16) :
    lengthBound name (some (.int (.ofNat n.toNat))) = .ok (some n) := by
  have hn : n.toNat < 65536 := n.toNat_lt
  rw [lengthBound, toInt_ofNat_toNat, if_pos (by omega)]
  simp

/-- The bound of a length, as it is written. -/
def lengthChars (n : UInt16) : List Char :=
  (Argument.lengthText n).toList

theorem spells_lengthChars (n : UInt16) : (Number.int (.ofNat n.toNat)).Spells (lengthChars n) := by
  have h := Number.spells_int (.ofNat n.toNat)
  rw [int64Text, toInt_ofNat_toNat] at h
  exact h

theorem numeral_lengthChars (o : Option UInt16) : ∀ cs ∈ o.map lengthChars, Numeral cs :=
  numeral_of_mem_map fun n _ => (spells_lengthChars n).numeral

theorem read_length {minLength maxLength : Option UInt16}
    (h : minLength.isSome ∨ maxLength.isSome) (name : String) (required : Bool) :
    read name (written .length (minLength.map lengthChars) (maxLength.map lengthChars)) required
      = .ok { Argument.plain name .string required with minLength, maxLength } := by
  have hbound : ∀ o : Option UInt16,
      lengthBound name (o.map fun n => .int (.ofNat n.toNat)) = .ok o := by
    rintro (_ | n)
    · rfl
    · exact lengthBound_toNat name n
  rw [read_written (fun n _ => spells_lengthChars n) (fun n _ => spells_lengthChars n) h]
  simp only [hbound]
  rfl

/-! ## What is declared -/

theorem foldl_pick_mem {choose : Number → Number → Number}
    (h : ∀ x y, choose x y = x ∨ choose x y = y) :
    ∀ (ns : List Number) (n : Number), ns.foldl choose n ∈ n :: ns
  | [], n => List.mem_singleton_self n
  | m :: ns, n => by
    have hmem := foldl_pick_mem h ns (choose n m)
    rcases List.mem_cons.1 hmem with heq | hmem
    · rw [List.foldl_cons, heq]
      rcases h n m with hc | hc <;> simp [hc]
    · exact List.mem_cons_of_mem _ (List.mem_cons_of_mem _ hmem)

theorem greatest_mem {ns : List Number} {n : Number} (h : greatest ns = some n) : n ∈ ns := by
  cases ns with
  | nil => cases h
  | cons m ns =>
    cases h
    exact foldl_pick_mem (fun x y => ite_eq_or_eq _ _ _) ns m

theorem least_mem {ns : List Number} {n : Number} (h : least ns = some n) : n ∈ ns := by
  cases ns with
  | nil => cases h
  | cons m ns =>
    cases h
    exact foldl_pick_mem (fun x y => (ite_eq_or_eq _ _ _).symm) ns m

theorem greatest_isSome {ns : List Number} (h : ns ≠ []) : (greatest ns).isSome := by
  cases ns with
  | nil => exact absurd rfl h
  | cons n ns => rfl

theorem least_isSome {ns : List Number} (h : ns ≠ []) : (least ns).isSome := by
  cases ns with
  | nil => exact absurd rfl h
  | cons n ns => rfl

theorem isFinite_of_readNumeral {c : Comparison} {b : Side × Number} {x : Binary64}
    (h : readNumeral c = .ok b) (hx : b.2 = .float x) : x.isFinite = true := by
  rw [readNumeral] at h
  split at h
  · rename_i n hn
    cases h
    rw [show n = .float x from hx] at hn
    exact Number.isFinite_of_ofChars? hn
  · cases h

theorem isSome_of_lengthBound {name : String} {o : Option Number} {r : Option UInt16}
    (h : lengthBound name o = .ok r) : r.isSome = o.isSome := by
  rcases o with _ | v | x
  · cases h
    rfl
  · rw [lengthBound] at h
    split_ifs at h
    cases h
    rfl
  · cases h

theorem sides_ne_nil {bounds : List (Side × Number)} (h : bounds ≠ []) :
    ((bounds.filter fun b => b.1 == .min).map (·.2)) ≠ []
      ∨ ((bounds.filter fun b => b.1 == .max).map (·.2)) ≠ [] := by
  obtain ⟨⟨side, n⟩, bounds, rfl⟩ := List.exists_cons_of_ne_nil h
  cases side with
  | min => exact .inl (by simp)
  | max => exact .inr (by simp)

theorem mem_bounds {bounds : List (Side × Number)} {side : Side} {n : Number}
    (h : n ∈ (bounds.filter fun b => b.1 == side).map (·.2)) : n ∈ bounds.map (·.2) := by
  obtain ⟨b, hb, rfl⟩ := List.mem_map.1 h
  exact List.mem_map_of_mem (List.mem_of_mem_filter hb)

theorem bounds_ne_nil {found : List Comparison} {bounds : List (Side × Number)}
    (hfound : ¬ found.isEmpty = true) (h : found.mapM readNumeral = .ok bounds) : bounds ≠ [] := by
  rintro rfl
  have hlength := length_of_mapM_ok h
  rw [List.length_nil] at hlength
  exact hfound (List.isEmpty_iff.2 (List.length_eq_zero_iff.1 hlength.symm))

/-- A bound expression declares a length or numbers of the argument's own type, on one side at
least. -/
theorem declared_of_read {name : String} {spec : List Char} {required : Bool} {a : Argument}
    (h : read name spec required = .ok a) :
    (∃ minLength maxLength, (minLength.isSome ∨ maxLength.isSome)
        ∧ a = { Argument.plain name .string required with minLength, maxLength })
      ∨ ∃ type min max, (∀ n ∈ min, n.Bounds type) ∧ (∀ n ∈ max, n.Bounds type)
        ∧ (min.isSome ∨ max.isSome) ∧ a = { Argument.plain name type required with min, max } := by
  simp only [read] at h
  split_ifs at h with hfound hrest hmixed hlength <;>
    simp only [bind_ok_iff, throw_ne_ok, false_and, exists_false, pure_ok_iff] at h
  · obtain ⟨bounds, hb, lo, hlo, hi, hhi, rfl⟩ := h
    refine .inl ⟨lo, hi, ?_, rfl⟩
    rw [isSome_of_lengthBound hlo, isSome_of_lengthBound hhi]
    exact (sides_ne_nil (bounds_ne_nil hfound hb)).imp greatest_isSome least_isSome
  · obtain ⟨bounds, hb, rfl⟩ := h
    have hfin : ∀ n ∈ bounds.map (·.2), ∀ x, n = .float x → x.isFinite = true := by
      intro n hn x hx
      obtain ⟨b, hmem, rfl⟩ := List.mem_map.1 hn
      obtain ⟨c, -, hc⟩ := mem_of_mapM_ok hb hmem
      exact isFinite_of_readNumeral hc hx
    have htype : (if bounds.all fun b => b.2.isInteger then ArgumentType.integer else .float)
        = if (bounds.map (·.2)).all Number.isInteger then .integer else .float := by
      rw [List.all_map]
      rfl
    have hbounds := fun n hn => Number.Bounds.of_coerce (n := n) hfin hn htype
    refine .inr ⟨_, _, _, fun n hn => ?_, fun n hn => ?_, ?_, rfl⟩
    · obtain ⟨k, hk, rfl⟩ := Option.mem_map.1 hn
      exact hbounds k (mem_bounds (greatest_mem hk))
    · obtain ⟨k, hk, rfl⟩ := Option.mem_map.1 hn
      exact hbounds k (mem_bounds (least_mem hk))
    · rw [Option.isSome_map, Option.isSome_map]
      exact (sides_ne_nil (bounds_ne_nil hfound hb)).imp greatest_isSome least_isSome

end Bounds

end SlashCommands
