import Mathlib.Data.List.Perm.Basic
import SlashCommands.Proofs.AnnotationWords
import SlashCommands.Proofs.TermScan
import SlashCommands.Proofs.TightestBounds

/-!
# Arguments declared by terms

Every list of terms with blanks between them is a bound expression, whatever the blanks around the
signs, and no sign in it closes an angle bracket (`Bounds.Spelled.inside`). Behind any name it
declares one argument with that name (`Declaration.parseSingle_terms`): its bounds are the greatest
lower and the least upper literal, and its type follows from the variable and the literals. The
order of the terms does not matter if they are integers that doubles tell apart
(`Bounds.Spelled.read_perm`).
-/

namespace SlashCommands

open Text Checked

namespace Bounds

/-! ## What the terms are read as -/

/-- The values of the terms that bound a side. -/
def values (side : Side) (ts : List Term) : List Number :=
  (ts.filter fun t => t.form.side = side).map Term.value

variable {m : Measure} {t : Term} {ts : List Term} {cs : List Char}

theorem Spelled.ne_nil (h : Spelled m ts cs) : ts ≠ [] := by
  cases h <;> simp

theorem Spelled.mem_comparisons (h : Spelled m ts cs) {c : Comparison} :
    c ∈ comparisons cs ↔ ∃ t ∈ ts, t.comparison m = c := by
  rw [comparisons_spelled h]
  simp only [List.mem_flatMap, List.mem_map, List.mem_filter, decide_eq_true_eq]
  constructor
  · rintro ⟨f, -, t, ⟨ht, -⟩, hc⟩
    exact ⟨t, ht, hc⟩
  · rintro ⟨t, ht, hc⟩
    exact ⟨t.form, mem_forms t.form, t, ⟨ht, rfl⟩, hc⟩

theorem Spelled.comparisons_ne_nil (h : Spelled m ts cs) : comparisons cs ≠ [] := by
  obtain ⟨t, ht⟩ := List.exists_mem_of_ne_nil _ h.ne_nil
  exact List.ne_nil_of_mem (h.mem_comparisons.2 ⟨t, ht, rfl⟩)

theorem Spelled.measure (h : Spelled m ts cs) : ∀ c ∈ comparisons cs, c.measure = m := by
  intro c hc
  obtain ⟨t, -, rfl⟩ := h.mem_comparisons.1 hc
  rfl

theorem Spelled.readable (h : Spelled m ts cs) :
    ∀ c ∈ comparisons cs, (Number.ofChars? c.numeral).isSome := by
  intro c hc
  obtain ⟨t, -, rfl⟩ := h.mem_comparisons.1 hc
  exact Option.isSome_of_eq_some t.literal.spells.reads

theorem Spelled.mem_numbers (h : Spelled m ts cs) {n : Number} :
    n ∈ numbers (comparisons cs) ↔ ∃ t ∈ ts, t.value = n := by
  rw [numbers, List.mem_filterMap]
  constructor
  · rintro ⟨c, hc, hn⟩
    obtain ⟨t, ht, rfl⟩ := h.mem_comparisons.1 hc
    exact ⟨t, ht, Option.some.inj (t.literal.spells.reads.symm.trans hn)⟩
  · rintro ⟨t, ht, rfl⟩
    exact ⟨t.comparison m, h.mem_comparisons.2 ⟨t, ht, rfl⟩, t.literal.spells.reads⟩

theorem Spelled.mem_literals (h : Spelled m ts cs) (side : Side) (n : Number) :
    n ∈ literals side (comparisons cs) ↔ n ∈ values side ts := by
  simp only [literals, numbers, values, List.mem_filterMap, List.mem_filter, List.mem_map,
    beq_iff_eq, decide_eq_true_eq]
  constructor
  · rintro ⟨c, ⟨hc, hs⟩, hn⟩
    obtain ⟨t, ht, rfl⟩ := h.mem_comparisons.1 hc
    exact ⟨t, ⟨ht, hs⟩, Option.some.inj (t.literal.spells.reads.symm.trans hn)⟩
  · rintro ⟨t, ⟨ht, hs⟩, rfl⟩
    exact ⟨t.comparison m, ⟨h.mem_comparisons.2 ⟨t, ht, rfl⟩, hs⟩, t.literal.spells.reads⟩

theorem Spelled.whole (h : Spelled .value ts cs) (hi : ∀ t ∈ ts, t.value.isInteger = true) :
    Whole (comparisons cs) := by
  intro c hc
  obtain ⟨t, ht, rfl⟩ := h.mem_comparisons.1 hc
  refine ⟨rfl, ?_⟩
  rw [show Number.ofChars? (t.comparison .value).numeral = _ from t.literal.spells.reads]
  exact hi t ht

/-- Comparisons of the value with integers alone. -/
theorem Spelled.read_integers (h : Spelled .value ts cs)
    (hi : ∀ t ∈ ts, t.value.isInteger = true) (name : String) (required : Bool) :
    read name cs required = .ok { Argument.plain name .integer required with
      min := greatest (literals .min (comparisons cs))
      max := least (literals .max (comparisons cs)) } :=
  read_of_whole h.comparisons_ne_nil (leftover_spelled h) (h.whole hi) name required

/-- The order of terms with integers that doubles tell apart does not matter. -/
theorem Spelled.read_perm {ts' : List Term} {cs' : List Char} (h : Spelled .value ts cs)
    (h' : Spelled .value ts' cs') (hp : ts'.Perm ts) (hi : ∀ t ∈ ts, t.value.isInteger = true)
    (hd : ∀ side, ToldApart (integers side (comparisons cs))) (name : String) (required : Bool) :
    read name cs' required = read name cs required := by
  have hperm : (comparisons cs').Perm (comparisons cs) := by
    rw [comparisons_spelled h, comparisons_spelled h']
    exact List.Perm.flatMap_left _ fun f _ => (hp.filter _).map _
  exact read_of_perm h.comparisons_ne_nil (leftover_spelled h) (leftover_spelled h') (h.whole hi)
    hperm hd name required

theorem coerce_float (n : Number) : n.coerce .float = .float n.toBinary64 := by
  cases n <;> rfl

/-- With one double among the literals, all bounds are doubles. -/
theorem Spelled.read_floats (h : Spelled .value ts cs)
    (hf : ∃ t ∈ ts, t.value.isInteger = false) (name : String) (required : Bool) :
    read name cs required = .ok { Argument.plain name .float required with
      min := (greatest (literals .min (comparisons cs))).map fun n => .float n.toBinary64
      max := (least (literals .max (comparisons cs))).map fun n => .float n.toBinary64 } := by
  obtain ⟨t, ht, hvalue⟩ := hf
  have hall : ¬ (numbers (comparisons cs)).all Number.isInteger = true := fun hall => by
    have hinteger := List.all_eq_true.1 hall t.value (h.mem_numbers.2 ⟨t, ht, rfl⟩)
    rw [hvalue] at hinteger
    cases hinteger
  rw [read_of_value h.comparisons_ne_nil (leftover_spelled h) h.readable h.measure, if_neg hall]
  simp [Argument.coerceLiterals, Argument.plain, funext coerce_float]

/-! ### Lengths -/

/-- A length as a literal. -/
def ofLength (n : UInt16) : Number :=
  .int (.ofNat n.toNat)

/-- An integer is a length that fits, or it is refused. -/
theorem lengthBound_cases (name : String) {o : Option Number}
    (h : ∀ n ∈ o, n.isInteger = true) :
    (∃ r : Option UInt16, o = r.map ofLength ∧ lengthBound name o = .ok r)
      ∨ ∃ v : Int64, o = some (.int v) ∧ (v.toInt < 0 ∨ 65535 < v.toInt)
        ∧ lengthBound name o = .error (.lengthOutOfRange (int64Text v) name) := by
  rcases o with _ | v | x
  · exact .inl ⟨none, rfl, rfl⟩
  · by_cases hfits : 0 ≤ v.toInt ∧ v.toInt < 65536
    · have hvalue : v = .ofNat (UInt16.ofNat v.toInt.toNat).toNat := by
        rw [← Int64.toInt_inj, toInt_ofNat_toNat, UInt16.toNat_ofNat']
        omega
      refine .inl ⟨some (.ofNat v.toInt.toNat), ?_, by rw [lengthBound, if_pos hfits]⟩
      rw [Option.map_some, ofLength, ← hvalue]
    · exact .inr ⟨v, rfl, by omega, by rw [lengthBound, if_neg hfits]⟩
  · cases h _ rfl

/-! ## Where the terms may stand -/

/-- What is no blank, no sign, no digit and no variable is not found in a term. -/
theorem Term.not_mem_chars_of_plain {c : Char} (hb : isBlank c = false)
    (hc : c ∉ boundMarks ∧ isAsciiDigit c = false) (hs : c ≠ '<' ∧ c ≠ '>') : c ∉ t.chars m := by
  simp only [boundMarks, List.mem_cons, List.not_mem_nil, not_or, or_false] at hc
  obtain ⟨⟨hx, hl, -, hequal, hminus, hpoint⟩, hd⟩ := hc
  have hchar : c ≠ m.char := by
    cases m
    · exact hx
    · exact hl
  have hsign : c ≠ t.form.sign := by
    rcases t.form.sign_cases with h | h <;> rw [h]
    · exact hs.1
    · exact hs.2
  have hnumeral : c ∉ t.numeral := t.isNumeral.not_mem ⟨hminus, hpoint, hd⟩
  rw [Term.chars]
  split_ifs <;> simp [hchar, hnumeral, Term.not_mem_middle hb hequal hsign]

theorem Spelled.not_mem (h : Spelled m ts cs) {c : Char} (hb : isBlank c = false)
    (hc : c ∉ boundMarks ∧ isAsciiDigit c = false) (hs : c ≠ '<' ∧ c ≠ '>') : c ∉ cs := by
  induction h with
  | one t => exact t.not_mem_chars_of_plain hb hc hs
  | cons t hgap _ _ ih =>
    have hterm : c ∉ t.chars m := t.not_mem_chars_of_plain hb hc hs
    simp [hterm, hgap.not_mem hb, ih]

theorem Term.sign_mem_chars (m : Measure) (t : Term) : t.form.sign ∈ t.chars m := by
  rw [Term.chars]
  split_ifs <;> simp [Term.middle]

theorem Spelled.any_sign (h : Spelled m ts cs) : (cs.any fun c => c = '<' || c = '>') = true := by
  have hsign : ∀ t : Term, t.form.sign ∈ cs → (cs.any fun c => c = '<' || c = '>') = true :=
    fun t ht => List.any_eq_true.2 ⟨_, ht, by simpa using t.form.sign_cases⟩
  cases h with
  | one t => exact hsign t (t.sign_mem_chars m)
  | cons t _ _ _ => exact hsign t (List.mem_append_left _ (t.sign_mem_chars m))

/-- No sign of a term closes an angle bracket. -/
theorem Term.inside (m : Measure) (t : Term) (required : Bool) :
    Token.Inside required (t.chars m) := by
  have hsquare : '[' ∉ t.chars m ∧ ']' ∉ t.chars m :=
    ⟨t.not_mem_chars_of_plain (by decide) (by decide) (by decide),
      t.not_mem_chars_of_plain (by decide) (by decide) (by decide)⟩
  have hother := Term.not_mem_chars (m := m) (t := t) (f := ⟨true, !t.form.less⟩) (by simp)
  refine .of_not_mem hsquare ?_
  rcases hl : t.form.less with _ | _
  · rw [hl] at hother
    exact .inl hother
  · rw [hl] at hother
    exact .inr hother

theorem Spelled.inside (h : Spelled m ts cs) (required : Bool) : Token.Inside required cs := by
  induction h with
  | one t => exact t.inside m required
  | @cons t ts gap cs hgap hne h ih =>
    -- a term ends in a character that is no sign, so the angles on its two sides do not meet
    obtain ⟨init, c, hchars⟩ := (List.eq_nil_or_concat (t.chars m)).resolve_left (t.chars_ne_nil m)
    rw [List.concat_eq_append] at hchars
    have hclosed := t.closed_chars m c (by rw [hchars, List.getLast?_concat])
    have hterm := t.inside m required
    rw [hchars] at hterm ⊢
    have hsquare : c ≠ '[' ∧ c ≠ ']' := by
      have hnone := hterm.noSquare
      simp only [List.mem_append, List.mem_singleton, not_or] at hnone
      exact ⟨Ne.symm hnone.1.2, Ne.symm hnone.2.2⟩
    have hinit := hterm.of_isInfix (List.prefix_append init [c]).isInfix
    rw [List.append_assoc, List.singleton_append]
    exact hinit.append (ih.blanks_append hgap) hclosed.1 (by simp [hclosed, hsquare])

end Bounds

namespace Declaration

open Bounds

/-! ## One argument -/

/-- A name that may stand in front of a colon, without a star. -/
structure Label (name : List Char) : Prop where
  ne_nil : name ≠ []
  tight : Tight name
  plain : ∀ c ∈ endMarks, c ∉ name
  unstarred : name.head? ≠ some '*'

theorem Label.splitStar {name : List Char} (h : Label name) :
    Declaration.splitStar name = (name, false) := by
  unfold Declaration.splitStar
  split
  · exact absurd rfl h.unstarred
  · rfl

variable {name : String} {m : Measure} {ts : List Term} {cs : List Char}

theorem readArgument_terms (hn : Label name.toList) (h : Spelled m ts cs) (raw : String)
    (required : Bool) :
    readArgument raw (name.toList ++ ':' :: ' ' :: cs, required)
      = ((Bounds.read name cs required).map fun a => { a with autocomplete := false }).mapError
        (.grammar raw) := by
  have hbar : cs.contains '|' = false := by
    simpa using h.not_mem (by decide) (by decide) (by decide)
  have hne : cs ≠ [] := by
    rintro rfl
    cases h.any_sign
  rw [readArgument_front hn.tight hn.ne_nil (hn.plain ':' (by decide)) hn.splitStar hn.ne_nil
    h.tight hne, hbar, if_neg Bool.false_ne_true, if_pos h.any_sign, String.ofList_toList]

theorem outline_bracket {raw : String} {inner : List Char} {required : Bool}
    (hi : Token.Inside required inner)
    (hraw : raw.toList = (Token.bracket inner required).render) :
    outline raw = .ok ([], [(inner, required)]) := by
  have hopens : Token.Opens [] := ⟨[], [], rfl, blanks_nil, .inl rfl⟩
  have hwritten := Token.Written.cons blanks_nil (hi.fitsBefore hopens) (.nil blanks_nil)
  rw [List.nil_append, List.append_nil, ← hraw] at hwritten
  exact outline_ok_iff.2 ⟨hwritten, by simp, by simp [tokens]⟩

/-- A declaration with one bracket is read as what the bracket is read as. -/
theorem parseSingle_of_outline {raw : String} {words : List (List Char)} {b : Bracketed}
    (ho : outline raw = .ok (words, [b])) :
    parseSingle raw = (readArgument raw b).map fun a => (pathOf words, a) := by
  rcases hr : readArgument raw b with fault | a
  · have harguments : [b].mapM (readArgument raw) = .error fault := by
      rw [List.mapM_cons, hr]
      rfl
    have hsegments : segments raw = .error fault := by
      rw [segments, ho]
      exact congrArg (fun found => found.map fun as => pathSegments words ++ as.map .argument)
        harguments
    rw [parseSingle, parse_of_segments_error hsegments]
    rfl
  · exact parseSingle_ok_iff.2 ⟨words, b, ho, hr, rfl⟩

theorem parseSingle_of_read (hn : Label name.toList) (h : Spelled m ts cs) {raw : String}
    {required : Bool}
    (hraw : raw.toList = (Token.bracket (name.toList ++ ':' :: ' ' :: cs) required).render) :
    parseSingle raw = ((Bounds.read name cs required).map fun a =>
      (Path.root, { a with autocomplete := false })).mapError (.grammar raw) := by
  have hfront : Token.Inside required name.toList :=
    .of_not_mem ⟨hn.plain _ (by decide), hn.plain _ (by decide)⟩ (.inl (hn.plain _ (by decide)))
  have hinside : Token.Inside required (name.toList ++ ':' :: ' ' :: cs) :=
    hfront.append (h.inside required).cons_blank (by decide) (by decide)
  rw [parseSingle_of_outline (outline_bracket hinside hraw), readArgument_terms hn h]
  rcases Bounds.read name cs required with reason | a <;> rfl

/-- A list of terms behind any name declares one argument, with the tightest literals for bounds; a
length that does not fit is refused. -/
theorem parseSingle_terms (hn : Label name.toList) (h : Spelled m ts cs) {raw : String}
    {required : Bool}
    (hraw : raw.toList = (Token.bracket (name.toList ++ ':' :: ' ' :: cs) required).render) :
    ∃ lo hi, Greatest (values .min ts) lo ∧ Least (values .max ts) hi
      ∧ (m = .value → (∀ t ∈ ts, t.value.isInteger = true) → parseSingle raw
        = .ok (.root, { Argument.plain name .integer required with min := lo, max := hi }))
      ∧ (m = .value → (∃ t ∈ ts, t.value.isInteger = false) → parseSingle raw
        = .ok (.root, { Argument.plain name .float required with
            min := lo.map fun n => .float n.toBinary64
            max := hi.map fun n => .float n.toBinary64 }))
      ∧ (m = .length → (∀ t ∈ ts, t.value.isInteger = true) →
        (∃ minLength maxLength, lo = minLength.map ofLength ∧ hi = maxLength.map ofLength
          ∧ parseSingle raw = .ok (.root,
            { Argument.plain name .string required with minLength, maxLength }))
        ∨ ∃ v : Int64, (lo = some (.int v) ∨ hi = some (.int v))
          ∧ (v.toInt < 0 ∨ 65535 < v.toInt)
          ∧ parseSingle raw = .error (.grammar raw (.lengthOutOfRange (int64Text v) name))) := by
  have hlo : Greatest (values .min ts) (greatest (literals .min (comparisons cs))) :=
    (greatest_spec _).of_mem_iff (h.mem_literals .min)
  have hhi : Least (values .max ts) (least (literals .max (comparisons cs))) :=
    (least_spec _).of_mem_iff (h.mem_literals .max)
  have hparse := parseSingle_of_read hn h hraw
  refine ⟨_, _, hlo, hhi, ?_, ?_, ?_⟩
  · rintro rfl hi
    rw [hparse, h.read_integers hi]
    rfl
  · rintro rfl hf
    rw [hparse, h.read_floats hf]
    rfl
  · rintro rfl hi
    have hinteger : ∀ {side n}, n ∈ literals side (comparisons cs) → n.isInteger = true := by
      intro side n hn
      obtain ⟨t, ht, rfl⟩ := List.mem_map.1 ((h.mem_literals side n).1 hn)
      exact hi t (List.mem_of_mem_filter ht)
    rw [read_of_length h.comparisons_ne_nil (leftover_spelled h) h.readable h.measure] at hparse
    rcases lengthBound_cases name fun n hn => hinteger (greatest_mem hn) with
      ⟨minLength, hmin, hminok⟩ | ⟨v, hv, hout, hfault⟩
    · rcases lengthBound_cases name fun n hn => hinteger (least_mem hn) with
        ⟨maxLength, hmax, hmaxok⟩ | ⟨v, hv, hout, hfault⟩
      · rw [hminok, hmaxok] at hparse
        exact .inl ⟨minLength, maxLength, hmin, hmax, hparse⟩
      · rw [hminok, hfault] at hparse
        exact .inr ⟨v, .inr hv, hout, hparse⟩
    · rw [hfault] at hparse
      exact .inr ⟨v, .inl hv, hout, hparse⟩

/-- `x>=-3`. -/
def fromBelow : Term where
  form := ⟨true, false⟩
  orEqual := true
  front := []
  back := []
  numeral := ['-', '3']
  value := .int (-3)
  front_blank := blanks_nil
  back_blank := blanks_nil
  literal := @Literal.whole true ['3'] rfl (-3) (by decide)

/-- `7.5 > x`. -/
def fromAbove : Term where
  form := ⟨false, false⟩
  orEqual := false
  front := [' ']
  back := [' ']
  numeral := ['7', '.', '5']
  value := .float (.nearest false 75 10)
  front_blank := blanks_space
  back_blank := blanks_space
  literal := @Literal.point false ['7'] ['5'] rfl rfl _ rfl (by decide +kernel)

theorem rate_parseSingle_terms :
    parseSingle "[rate: x>=-3  7.5 > x]" = .ok (.root, { Argument.plain "rate" .float false with
      min := some (.float (.ofInt (-3)))
      max := some (.float (.nearest false 75 10)) }) := by
  have hgap : Blanks [' ', ' '] := blanks_space.append blanks_space
  have hspelled : Spelled .value [fromBelow, fromAbove] _ :=
    .cons fromBelow hgap (by simp) (.one fromAbove)
  have hn : Label "rate".toList :=
    ⟨by decide, tight_of_ends (by decide) (by decide), by simp [endMarks], by decide⟩
  obtain ⟨lo, hi, hlo, hhi, -, hfloats, -⟩ := parseSingle_terms hn hspelled
    (show "[rate: x>=-3  7.5 > x]".toList = (Token.bracket _ false).render by decide +kernel)
  have hvalue : ∃ t ∈ [fromBelow, fromAbove], t.value.isInteger = false :=
    ⟨fromAbove, by simp, rfl⟩
  have hmin : values .min [fromBelow, fromAbove] = [.int (-3)] := rfl
  have hmax : values .max [fromBelow, fromAbove] = [.float (.nearest false 75 10)] := rfl
  rw [hmin] at hlo
  rw [hmax] at hhi
  rcases lo with _ | lo
  · cases hlo
  rcases hi with _ | hi
  · cases hhi
  rw [hfloats rfl hvalue, List.mem_singleton.1 hlo.1, List.mem_singleton.1 hhi.1]
  rfl

end Declaration

end SlashCommands
