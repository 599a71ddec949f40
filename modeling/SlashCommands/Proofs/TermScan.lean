import SlashCommands.Proofs.ScanAppend

/-!
# Scanning a list of terms

A term is a variable and a literal with a comparison sign between them, in either order. In a list
of terms with blanks between them each of the four patterns finds exactly the terms of its own form
(`Bounds.scan_spelled`), and together they leave nothing but blanks over
(`Bounds.leftover_spelled`).
-/

namespace SlashCommands

open Text Decimal

/-! ## Literals -/

/-- An integer of 64 bits as it is written, or a decimal with a point whose nearest double is
finite. -/
inductive Literal : List Char → Number → Prop
  | whole (negative : Bool) {digits : List Char} (h : allDigits digits = true) {v : Int64}
    (hv : v.toInt = if negative then -(digitsValue digits : Int) else digitsValue digits) :
    Literal (signChars negative ++ digits) (.int v)
  | point (negative : Bool) {digits fraction : List Char} (h : allDigits digits = true)
    (hf : allDigits fraction = true) {x : Binary64}
    (hx : Binary64.nearest negative (digitsValue (digits ++ fraction)) (10 ^ fraction.length) = x)
    (hfin : x.isFinite = true) :
    Literal (signChars negative ++ (digits ++ '.' :: fraction)) (.float x)

theorem Literal.spells {cs : List Char} {n : Number} (h : Literal cs n) : n.Spells cs := by
  cases h with
  | whole negative h hv =>
    have hnumeral : Numeral (signChars negative ++ _) := .whole negative h
    refine ⟨hnumeral, ?_⟩
    rw [Number.ofChars?, trim_of_tight hnumeral.tight, readInt_whole negative h, ← hv]
    simp [int64OfInt?_toInt]
  | point negative h hf hx hfin =>
    exact ⟨.point negative h hf, Number.ofChars?_point negative h hf hx hfin⟩

namespace Bounds

/-! ## Forms -/

/-- Whether the variable stands in front of the numeral, and which of the two signs is between. -/
structure Form where
  leads : Bool
  less : Bool
deriving DecidableEq

namespace Form

/-- The sign of a comparison. -/
def sign (f : Form) : Char :=
  if f.less then '<' else '>'

/-- A `<` behind the variable bounds it above, and so does a `>` in front of it. -/
def side (f : Form) : Side :=
  if f.leads = f.less then .max else .min

/-- The pattern that finds comparisons of the form. -/
def pattern (f : Form) : Pattern :=
  if f.leads then variableFirst f.sign f.side else fun _ => numeralFirst f.sign f.side

theorem sign_cases (f : Form) : f.sign = '<' ∨ f.sign = '>' := by
  rcases f with ⟨_, _ | _⟩
  · exact .inr rfl
  · exact .inl rfl

theorem sign_plain (f : Form) : isBlank f.sign = false ∧ isDecimalDigit f.sign = false
    ∧ f.sign ≠ '=' ∧ f.sign ≠ '-' ∧ f.sign ≠ '.' := by
  rcases f.sign_cases with h | h <;> rw [h] <;> decide

theorem pattern_append {cs rest : List Char} (hc : Closed cs) (hne : cs ≠ []) (hr : Apart rest)
    (f : Form) (before : Option Char) :
    f.pattern before (cs ++ rest) = (f.pattern before cs).map fun g => (g.1, g.2 ++ rest) := by
  rw [pattern]
  split_ifs
  · exact variableFirst_append hc hne hr f.sign_cases before
  · exact numeralFirst_append hc hr f.sign_cases

/-- No pattern matches at a blank. -/
theorem pattern_of_isBlank {c : Char} (h : isBlank c = true) (f : Form) (before : Option Char)
    (cs : List Char) : f.pattern before (c :: cs) = none := by
  rw [pattern]
  split_ifs
  · exact variableFirst_cons_eq_none (measureOf?_of_isBlank h) cs
  · exact numeralFirst_cons_eq_none (isDecimalDigit_of_isBlank h) (ne_of_isBlank h (by decide)) cs

end Form

/-- The forms in the order in which their patterns are looked for. -/
def forms : List Form :=
  [⟨true, false⟩, ⟨false, true⟩, ⟨true, true⟩, ⟨false, false⟩]

theorem patterns_eq : patterns = forms.map Form.pattern := rfl

theorem mem_forms (f : Form) : f ∈ forms := by
  rcases f with ⟨_ | _, _ | _⟩ <;> decide

/-! ## Terms -/

/-- A comparison of the variable with a literal, as it is written. -/
structure Term where
  form : Form
  orEqual : Bool
  /-- The blanks in front of the sign. -/
  front : List Char
  /-- The blanks behind the sign. -/
  back : List Char
  numeral : List Char
  value : Number
  front_blank : Blanks front
  back_blank : Blanks back
  literal : Literal numeral value

namespace Term

/-- The sign with what may stand around it. -/
def middle (t : Term) : List Char :=
  t.front ++ t.form.sign :: ((if t.orEqual then ['='] else []) ++ t.back)

/-- The text of a term. -/
def chars (m : Measure) (t : Term) : List Char :=
  if t.form.leads then m.char :: (t.middle ++ t.numeral) else t.numeral ++ (t.middle ++ [m.char])

/-- What the term says. -/
def comparison (m : Measure) (t : Term) : Comparison :=
  ⟨m, t.form.side, t.numeral⟩

variable {t : Term} {m : Measure} {f : Form}

theorem isNumeral (t : Term) : Numeral t.numeral :=
  t.literal.spells.numeral

/-- What is neither a blank nor one of the signs does not stand between the two sides. -/
theorem not_mem_middle {c : Char} (hb : isBlank c = false) (he : c ≠ '=') (hs : c ≠ t.form.sign) :
    c ∉ t.middle := by
  have hequal : c ∉ (if t.orEqual then ['='] else []) := by
    split_ifs <;> simp [he]
  simp [middle, t.front_blank.not_mem hb, t.back_blank.not_mem hb, hs, hequal]

theorem takeSign_middle (t : Term) (cs : List Char)
    (h : ∀ c, cs.head? = some c → isBlank c = false ∧ c ≠ '=') :
    takeSign t.form.sign (t.middle ++ cs) = some cs := by
  have hfront : trimStart (t.middle ++ cs)
      = t.form.sign :: ((if t.orEqual then ['='] else []) ++ (t.back ++ cs)) := by
    rw [middle, List.append_assoc, trimStart_append t.front_blank,
      trimStart_eq_self (by simp [t.form.sign_plain])]
    simp
  have hback : trimStart (t.back ++ cs) = cs := by
    rw [trimStart_append t.back_blank, trimStart_eq_self fun c hc => (h c hc).1]
  rw [takeSign, hfront]
  dsimp only
  rw [if_pos rfl]
  by_cases hequal : t.orEqual = true
  · simp [hequal, hback]
  · rw [if_neg hequal, List.nil_append]
    split
    · rename_i more heq
      -- an equals sign would have to be a blank or begin the other side
      have hhead : (t.back ++ cs).head? = some '=' := by rw [heq]; rfl
      rcases hb : t.back with _ | ⟨d, gap⟩
      · rw [hb, List.nil_append] at hhead
        exact absurd rfl (h '=' hhead).2
      · rw [hb] at hhead
        obtain rfl : d = '=' := by simpa using hhead
        exact absurd (t.back_blank '=' (hb ▸ List.mem_cons_self)) (by decide)
    · rw [hback]

theorem char_ne (m : Measure) : isBlank m.char = false ∧ m.char ≠ '=' ∧ m.char ≠ '<'
    ∧ m.char ≠ '>' ∧ isDecimalDigit m.char = false ∧ m.char ≠ '-' := by
  cases m <;> decide

theorem numeral_plain (t : Term) : ∀ c ∈ t.numeral,
    isBlank c = false ∧ c ≠ '=' ∧ c ≠ '<' ∧ c ≠ '>' ∧ measureOf? c = none := by
  have hplain : ∀ {c d : Char}, c ∈ t.numeral → d ≠ '-' ∧ d ≠ '.' ∧ isAsciiDigit d = false →
      c ≠ d := fun hc hd he => t.isNumeral.not_mem hd (he ▸ hc)
  intro c hc
  refine ⟨?_, hplain hc (by decide), hplain hc (by decide), hplain hc (by decide),
    measureOf?_eq_none (hplain hc (by decide)) (hplain hc (by decide))⟩
  rcases t.isNumeral.mem c hc with rfl | rfl | hd
  · rfl
  · rfl
  · exact isBlank_of_isAsciiDigit hd

theorem sign_not_mem_numeral (f : Form) (t : Term) : f.sign ∉ t.numeral := fun hc => by
  have hplain := t.numeral_plain _ hc
  rcases f.sign_cases with hs | hs <;> simp [hs] at hplain

/-- A term begins and ends with a character of its variable or its numeral. -/
theorem chars_ends (m : Measure) (t : Term) : ∃ opening closing, (t.chars m).head? = some opening
    ∧ (t.chars m).getLast? = some closing
    ∧ ∀ c ∈ [opening, closing], isBlank c = false ∧ c ≠ '<' ∧ c ≠ '>' ∧ c ≠ '=' := by
  have hchar := char_ne m
  have hv : isBlank m.char = false ∧ m.char ≠ '<' ∧ m.char ≠ '>' ∧ m.char ≠ '=' := by simp [hchar]
  have hn : ∀ c ∈ t.numeral, isBlank c = false ∧ c ≠ '<' ∧ c ≠ '>' ∧ c ≠ '=' := fun c hc => by
    simp [t.numeral_plain c hc]
  have hne := t.isNumeral.ne_nil
  rw [chars]
  split_ifs
  · refine ⟨_, t.numeral.getLast hne, rfl, ?_, by simp [hv, hn _ (List.getLast_mem hne)]⟩
    rw [← List.cons_append, List.getLast?_append_of_ne_nil _ hne,
      List.getLast?_eq_getLast_of_ne_nil hne]
  · refine ⟨t.numeral.head hne, m.char, ?_, ?_, by simp [hv, hn _ (List.head_mem hne)]⟩
    · rw [List.head?_append_of_ne_nil _ hne, List.head?_eq_some_head hne]
    · rw [← List.append_assoc, List.getLast?_concat]

theorem chars_ne_nil (m : Measure) (t : Term) : t.chars m ≠ [] := by
  obtain ⟨c, -, hc, -⟩ := chars_ends m t
  intro hnil
  rw [hnil] at hc
  cases hc

theorem closed_chars (m : Measure) (t : Term) : Closed (t.chars m) := by
  obtain ⟨opening, closing, -, hlast, hends⟩ := chars_ends m t
  intro c hc
  rw [hlast] at hc
  exact hends c (by simp [Option.some.inj hc])

/-- A sign stands in the terms with that sign only. -/
theorem not_mem_chars (h : f.less ≠ t.form.less) : f.sign ∉ t.chars m := by
  have hmarks : f.sign ≠ t.form.sign := by
    rcases f with ⟨_, _ | _⟩ <;> rcases ht : t.form with ⟨_, _ | _⟩ <;> rw [ht] at h <;>
      simp_all [Form.sign]
  have hchar : f.sign ≠ m.char := by
    rcases f.sign_cases with hs | hs <;> rw [hs] <;> cases m <;> decide
  have hmiddle := not_mem_middle f.sign_plain.1 f.sign_plain.2.2.1 hmarks
  rw [chars]
  split_ifs <;> simp [sign_not_mem_numeral, hchar, hmiddle]

/-- The pattern of its form matches a term from end to end. -/
theorem pattern_chars (m : Measure) (t : Term) {before : Option Char}
    (hb : before.any isWordChar = false) :
    t.form.pattern before (t.chars m) = some (t.comparison m, []) := by
  have hchar := char_ne m
  have hnumeral := t.isNumeral
  rw [Form.pattern, chars]
  split_ifs
  · have hsign := t.takeSign_middle t.numeral fun c hc => by
      simp [t.numeral_plain c (List.mem_of_mem_head? hc)]
    have hends : EndsNumeral [] := by simp [EndsNumeral]
    have htake : takeNumeral t.numeral = some (t.numeral, []) := by
      simpa using takeNumeral_append hnumeral hends
    simp [variableFirst, hb, hsign, htake, comparison]
  · have hends : EndsNumeral (t.middle ++ [m.char]) := by
      intro c hc
      rcases hf : t.front with _ | ⟨d, gap⟩
      · obtain rfl : t.form.sign = c := by simpa [middle, hf] using hc
        simp [t.form.sign_plain]
      · obtain rfl : d = c := by simpa [middle, hf] using hc
        have hblank := t.front_blank d (hf ▸ List.mem_cons_self)
        exact ⟨isDecimalDigit_of_isBlank hblank, ne_of_isBlank hblank (by decide)⟩
    have hsign := t.takeSign_middle [m.char] fun c hc => by
      obtain rfl : m.char = c := by simpa using hc
      simp [hchar]
    simp [numeralFirst, takeNumeral_append hnumeral hends, hsign, endsWord, comparison]

theorem scan_own (m : Measure) (t : Term) {before : Option Char}
    (hb : before.any isWordChar = false) :
    scan t.form.pattern before 0 (t.chars m)
      = ([t.comparison m], List.replicate (t.chars m).length true) := by
  obtain ⟨c, cs, hcs⟩ := List.exists_cons_of_ne_nil (t.chars_ne_nil m)
  have hp : t.form.pattern before (c :: (cs ++ [])) = some (t.comparison m, []) := by
    rw [List.append_nil, ← hcs]
    exact t.pattern_chars m hb
  have hfound := scan_found hp
  rw [List.append_nil] at hfound
  rw [hcs, hfound]
  simp [scan]

theorem measureOf?_of_mem_middle {c : Char} (h : c ∈ t.middle) : measureOf? c = none := by
  have hmark : ∀ m : Measure, c ≠ m.char := fun m hc => by
    have hplain := char_ne m
    refine not_mem_middle (t := t) hplain.1 hplain.2.1 ?_ (hc ▸ h)
    rcases t.form.sign_cases with hs | hs <;> simp [hs, hplain]
  exact measureOf?_eq_none (hmark .value) (hmark .length)

/-- There is no variable in front of the one at the end, and no sign behind that. -/
theorem scan_variableFirst_chars {sign : Char} {side : Side} (h : t.form.leads = false)
    (before : Option Char) : scan (variableFirst sign side) before 0 (t.chars m)
      = ([], List.replicate (t.chars m).length false) := by
  have hlast : ∀ b, scan (variableFirst sign side) b 0 [m.char] = ([], [false]) := fun b => by
    have hnone : variableFirst sign side b [m.char] = none := by
      simp only [variableFirst, measureOf?_char, takeSign, trimStart, List.dropWhile_nil]
      by_cases hb : b.any isWordChar = true <;> simp [hb]
    simp [scan, hnone]
  rw [chars, if_neg (by simp [h]), ← List.append_assoc,
    scan_pass [m.char] (t.numeral ++ t.middle) before fun pre c post b hp => ?_, hlast]
  · have hlength : (t.numeral ++ t.middle ++ [m.char]).length
        = (t.numeral ++ t.middle).length + 1 := List.length_append
    rw [hlength, List.replicate_add]
    rfl
  · have hmem : c ∈ t.numeral ++ t.middle := hp ▸ by simp
    refine variableFirst_cons_eq_none ?_ _
    rcases List.mem_append.1 hmem with hc | hc
    · exact (t.numeral_plain c hc).2.2.2.2
    · exact measureOf?_of_mem_middle hc

/-- No numeral begins in front of the sign, and no sign is behind it. -/
theorem scan_numeralFirst_chars {side : Side} (h : t.form.leads = true) (f : Form)
    (before : Option Char) : scan (fun _ => numeralFirst f.sign side) before 0 (t.chars m)
      = ([], List.replicate (t.chars m).length false) := by
  have hpre : ((m.char :: (t.front ++ [t.form.sign])).all
      fun c => !isDecimalDigit c && c != '-') = true := by
    have hchar := char_ne m
    refine List.all_eq_true.2 fun c hc => ?_
    simp only [List.mem_cons, List.mem_append, List.not_mem_nil, or_false] at hc
    rcases hc with rfl | hc | rfl
    · simp [hchar]
    · have hblank := t.front_blank c hc
      simp [isDecimalDigit_of_isBlank hblank, ne_of_isBlank hblank (d := '-') (by decide)]
    · simp [t.form.sign_plain]
  have hpost : f.sign ∉ ((if t.orEqual then ['='] else []) ++ t.back) ++ t.numeral := by
    have hback := t.back_blank.not_mem f.sign_plain.1
    have hequal : f.sign ∉ (if t.orEqual then ['='] else []) := by
      split_ifs <;> simp [f.sign_plain]
    simp [hback, sign_not_mem_numeral, hequal]
  have hscan := @scan_numeralFirst_eq_nil f.sign side _ _ before hpre hpost
  simpa [chars, h, middle] using hscan

/-- The patterns of the other forms find nothing in a term. -/
theorem scan_other (h : f ≠ t.form) (before : Option Char) :
    scan f.pattern before 0 (t.chars m) = ([], List.replicate (t.chars m).length false) := by
  have hdiffers : f.leads ≠ t.form.leads ∨ f.less ≠ t.form.less := by
    by_contra hsame
    rw [not_or, not_not, not_not] at hsame
    exact h (by rcases f with ⟨_, _⟩; exact congrArg₂ Form.mk hsame.1 hsame.2)
  rw [Form.pattern]
  rcases hl : f.leads with _ | _
  · rcases hdiffers with hleads | hless
    · exact scan_numeralFirst_chars (by simpa [hl] using hleads.symm) f before
    · exact scan_numeralFirst_eq_nil [] before rfl (not_mem_chars hless)
  · rcases hdiffers with hleads | hless
    · exact scan_variableFirst_chars (by simpa [hl] using hleads.symm) before
    · exact scan_variableFirst_eq_nil before (not_mem_chars hless)

end Term

/-! ## Lists of terms -/

/-- The terms one after the other, with blanks between any two of them. -/
inductive Spelled (m : Measure) : List Term → List Char → Prop
  | one (t : Term) : Spelled m [t] (t.chars m)
  | cons (t : Term) {ts : List Term} {gap cs : List Char} (hgap : Blanks gap) (hne : gap ≠ [])
    (h : Spelled m ts cs) : Spelled m (t :: ts) (t.chars m ++ (gap ++ cs))

variable {m : Measure} {t : Term} {ts : List Term} {cs gap : List Char}

theorem Spelled.ends (h : Spelled m ts cs) : ∃ opening closing, cs.head? = some opening
    ∧ cs.getLast? = some closing
    ∧ ∀ c ∈ [opening, closing], isBlank c = false ∧ c ≠ '<' ∧ c ≠ '>' ∧ c ≠ '=' := by
  induction h with
  | one t => exact t.chars_ends m
  | @cons t ts gap cs hgap hne h ih =>
    obtain ⟨opening, _, hhead, -, hopening⟩ := t.chars_ends m
    obtain ⟨_, closing, -, hlast, hclosing⟩ := ih
    have hcs : cs ≠ [] := by
      rintro rfl
      cases hlast
    refine ⟨opening, closing, ?_, ?_, by simp [hopening opening, hclosing closing]⟩
    · rw [List.head?_append_of_ne_nil _ (t.chars_ne_nil m), hhead]
    · rw [List.getLast?_append_of_ne_nil _ (by simp [hcs]), List.getLast?_append_of_ne_nil _ hcs,
        hlast]

theorem Spelled.tight (h : Spelled m ts cs) : Tight cs := by
  obtain ⟨opening, closing, hhead, hlast, hplain⟩ := h.ends
  exact tight_of_ends (by simp [hhead, hplain]) (by simp [hlast, hplain])

theorem Spelled.apart (h : Spelled m ts cs) (hgap : Blanks gap) (hne : gap ≠ []) :
    Apart (gap ++ cs) where
  blank c hc := hgap c (by
    rw [List.head?_append_of_ne_nil _ hne] at hc
    exact List.mem_of_mem_head? hc)
  unsigned c hc := by
    obtain ⟨opening, closing, hhead, -, hplain⟩ := h.ends
    rw [trimStart_append hgap, trimStart_eq_self h.tight.head, hhead] at hc
    obtain rfl := Option.some.inj hc
    have hopening := hplain opening (by simp)
    exact ⟨hopening.2.1, hopening.2.2.1⟩

theorem isWordChar_lastOf_gap (hgap : Blanks gap) (hne : gap ≠ []) (before : Option Char) :
    (lastOf before gap).any isWordChar = false := by
  obtain ⟨init, c, rfl⟩ := (List.eq_nil_or_concat gap).resolve_left hne
  have hblank := hgap c (by simp)
  simp [lastOf, isWordChar_of_isBlank hblank]

/-- A term is scanned on its own, and then what is behind the blanks. -/
theorem scan_cons (h : Spelled m ts cs) (hgap : Blanks gap) (hne : gap ≠ []) (t : Term)
    (before : Option Char) : ∃ b : Option Char, b.any isWordChar = false
      ∧ ∀ f : Form, scan f.pattern before 0 (t.chars m ++ (gap ++ cs))
        = ((scan f.pattern before 0 (t.chars m)).1 ++ (scan f.pattern b 0 cs).1,
          (scan f.pattern before 0 (t.chars m)).2
            ++ (List.replicate gap.length false ++ (scan f.pattern b 0 cs).2)) := by
  refine ⟨_, isWordChar_lastOf_gap hgap hne (lastOf before (t.chars m)), fun f => ?_⟩
  rw [scan_append (fun b ds hd hds => Form.pattern_append ((t.closed_chars m).of_suffix hd) hds
      (h.apart hgap hne) f b) before (Nat.zero_le _),
    scan_pass cs gap (lastOf before (t.chars m)) fun pre c post b hp =>
      f.pattern_of_isBlank (hgap c (hp ▸ by simp)) b _]

/-- Each pattern finds the terms of its form, in their order. -/
theorem scan_spelled (h : Spelled m ts cs) (f : Form) : ∀ {before : Option Char},
    before.any isWordChar = false → (scan f.pattern before 0 cs).1
      = (ts.filter fun t => t.form = f).map (Term.comparison m) := by
  have hterm : ∀ (t : Term) (before : Option Char), before.any isWordChar = false →
      (scan f.pattern before 0 (t.chars m)).1
        = ([t].filter fun t => t.form = f).map (Term.comparison m) := by
    intro t before hb
    by_cases hf : t.form = f
    · rw [← hf, t.scan_own m hb]
      simp
    · rw [Term.scan_other (Ne.symm hf)]
      simp [hf]
  induction h with
  | one t => exact fun hb => hterm t _ hb
  | @cons t ts gap cs hgap hne h ih =>
    intro before hb
    obtain ⟨b, hb', hscan⟩ := scan_cons h hgap hne t before
    rw [hscan, hterm t before hb, ih hb', ← List.map_append, ← List.filter_append,
      List.singleton_append]

/-! ## What is found -/

/-- All patterns together leave nothing but the blanks between the terms. -/
theorem uncovered_spelled (h : Spelled m ts cs) : ∀ {before : Option Char},
    before.any isWordChar = false →
      ∀ c ∈ uncovered cs (forms.map fun f => (scan f.pattern before 0 cs).2), isBlank c = true := by
  have hterm : ∀ (t : Term) (before : Option Char), before.any isWordChar = false →
      uncovered (t.chars m) (forms.map fun f => (scan f.pattern before 0 (t.chars m)).2) = [] := by
    intro t before hb
    refine uncovered_eq_nil _ _ fun i hi => ⟨_, List.mem_map_of_mem (mem_forms t.form), ?_⟩
    rw [t.scan_own m hb]
    exact List.getElem?_replicate_of_lt hi
  induction h with
  | one t =>
    intro before hb
    rw [hterm t before hb]
    simp
  | @cons t ts gap cs hgap hne h ih =>
    intro before hb
    obtain ⟨b, hb', hscan⟩ := scan_cons h hgap hne t before
    simp only [hscan]
    rw [uncovered_append forms _ fun f _ => length_scan _ _ _, hterm t before hb, List.nil_append,
      uncovered_append forms _ fun f _ => List.length_replicate]
    intro c hc
    rcases List.mem_append.1 hc with hc | hc
    · exact hgap c (mem_of_mem_uncovered hc)
    · exact ih hb' c hc

theorem comparisons_spelled (h : Spelled m ts cs) : comparisons cs
    = forms.flatMap fun f => (ts.filter fun t => t.form = f).map (Term.comparison m) := by
  rw [comparisons, patterns_eq, List.flatMap_map]
  exact congrArg forms.flatMap (funext fun f => scan_spelled h f rfl)

theorem leftover_spelled (h : Spelled m ts cs) : leftover cs = [] := by
  rw [leftover, patterns_eq, List.map_map]
  refine List.filter_eq_nil_iff.2 fun c hc => ?_
  simp [uncovered_spelled h rfl c hc]

end Bounds

end SlashCommands
