import SlashCommands.Grammar.Bounds
import SlashCommands.Proofs.NumeralText

/-!
# Scanning bound expressions

What the four patterns find in a bound expression as it is written: its numerals, each at its side
of the variable, and nothing else (`Bounds.comparisons_written`), with no character left over
(`Bounds.leftover_written`). A pattern finds nothing where its sign does not follow or no numeral
begins, and passes over what it found.
-/

namespace SlashCommands.Bounds

open Text Decimal

/-! ## One comparison -/

theorem isDecimalDigit_of_isAsciiDigit {c : Char} (h : isAsciiDigit c = true) :
    isDecimalDigit c = true := by
  have hlt : c.toNat < 128 := Nat.lt_of_le_of_lt (toNat_of_isAsciiDigit h).2 (by decide)
  rw [isDecimalDigit, if_pos hlt, h]

/-- What may stand behind a numeral without being taken for a part of it. -/
def EndsNumeral (rest : List Char) : Prop :=
  ∀ c, rest.head? = some c → isDecimalDigit c = false ∧ c ≠ '.'

theorem takeUnsigned_append {digits : List Char} (h : allDigits digits = true) {rest : List Char}
    (hr : EndsNumeral rest) : takeUnsigned (digits ++ rest) = some (digits, rest) := by
  obtain ⟨hne, hd⟩ := allDigits_iff.1 h
  have hspan := span_append (fun c hc => isDecimalDigit_of_isAsciiDigit (hd c hc)) rest
    fun c hc => (hr c hc).1
  simp only [takeUnsigned, hspan, List.isEmpty_iff, hne, if_false]
  split
  · exact absurd rfl (hr '.' rfl).2
  · rfl

theorem takeUnsigned_point {digits fraction : List Char} (h : allDigits digits = true)
    (hf : allDigits fraction = true) {rest : List Char} (hr : EndsNumeral rest) :
    takeUnsigned (digits ++ '.' :: (fraction ++ rest))
      = some (digits ++ '.' :: fraction, rest) := by
  obtain ⟨hne, hd⟩ := allDigits_iff.1 h
  obtain ⟨hfne, hfd⟩ := allDigits_iff.1 hf
  have hpoint : isDecimalDigit '.' = false := by decide
  have hwhole := span_append (fun c hc => isDecimalDigit_of_isAsciiDigit (hd c hc))
    ('.' :: (fraction ++ rest)) (by simp [hpoint])
  have hfraction := span_append (fun c hc => isDecimalDigit_of_isAsciiDigit (hfd c hc)) rest
    fun c hc => (hr c hc).1
  simp [takeUnsigned, hwhole, hfraction, hne, hfne]

theorem takeNumeral_signed {digits : List Char} (h : allDigits digits = true) (negative : Bool)
    (rest : List Char) : takeNumeral (signChars negative ++ (digits ++ rest))
      = (takeUnsigned (digits ++ rest)).map fun n => (signChars negative ++ n.1, n.2) := by
  cases negative with
  | true => rfl
  | false =>
    obtain ⟨hne, hd⟩ := allDigits_iff.1 h
    obtain ⟨c, cs, rfl⟩ := List.exists_cons_of_ne_nil hne
    have hminus : c ≠ '-' := by
      rintro rfl
      simpa [isAsciiDigit] using hd '-' List.mem_cons_self
    simp [signChars, takeNumeral, hminus]

theorem takeNumeral_append {cs : List Char} (h : Numeral cs) {rest : List Char}
    (hr : EndsNumeral rest) : takeNumeral (cs ++ rest) = some (cs, rest) := by
  cases h with
  | whole negative h =>
    rw [List.append_assoc, takeNumeral_signed h, takeUnsigned_append h hr]
    rfl
  | point negative h hf =>
    rw [List.append_assoc, List.append_assoc, takeNumeral_signed h, List.cons_append,
      takeUnsigned_point h hf hr]
    rfl

/-- Where no numeral begins. -/
theorem takeNumeral_cons_eq_none {c : Char} (hd : isDecimalDigit c = false) (hm : c ≠ '-')
    (cs : List Char) : takeNumeral (c :: cs) = none := by
  simp [takeNumeral, hm, takeUnsigned, hd]

theorem takeUnsigned_suffix {cs : List Char} {n : List Char × List Char}
    (h : takeUnsigned cs = some n) : n.2 <:+ cs := by
  simp only [takeUnsigned] at h
  split_ifs at h
  split at h
  · rename_i more hm
    have hsuffix : more <:+ cs :=
      (List.suffix_cons '.' more).trans (hm ▸ List.dropWhile_suffix isDecimalDigit)
    split_ifs at h
    · cases h
      exact List.dropWhile_suffix isDecimalDigit
    · cases h
      exact (List.dropWhile_suffix isDecimalDigit).trans hsuffix
  · cases h
    exact List.dropWhile_suffix isDecimalDigit

theorem takeNumeral_suffix {cs : List Char} {n : List Char × List Char}
    (h : takeNumeral cs = some n) : n.2 <:+ cs := by
  unfold takeNumeral at h
  split at h
  · obtain ⟨n, hn, rfl⟩ := Option.map_eq_some_iff.1 h
    exact (takeUnsigned_suffix hn).trans (List.suffix_cons _ _)
  · exact takeUnsigned_suffix h

theorem takeSign_eq_none {sign : Char} {cs : List Char} (h : sign ∉ cs) :
    takeSign sign cs = none := by
  rw [takeSign]
  split
  · rename_i c rest hc
    have htrim : c ∈ trimStart cs := hc ▸ List.mem_cons_self
    have hmem : c ∈ cs := (List.dropWhile_suffix isBlank).mem htrim
    rw [if_neg fun he : c = sign => h (he ▸ hmem)]
  · rfl

/-- A wide comparison with a blank on both sides. -/
theorem takeSign_wide {sign : Char} (hs : isBlank sign = false) {cs : List Char}
    (h : ∀ c, cs.head? = some c → isBlank c = false) :
    takeSign sign (' ' :: sign :: '=' :: ' ' :: cs) = some cs := by
  have hblank : isBlank ' ' = true := by decide
  have htrim : trimStart (' ' :: sign :: '=' :: ' ' :: cs) = sign :: '=' :: ' ' :: cs := by
    simp [trimStart, hblank, hs]
  have hcs : trimStart (' ' :: cs) = cs := by
    rw [trimStart, List.dropWhile_cons_of_pos hblank, ← trimStart, trimStart_eq_self h]
  rw [takeSign, htrim]
  simp [hcs]

/-! ## Where a pattern matches -/

/-- The letter of a bound expression. -/
def Measure.char : Measure → Char
  | .value => 'x'
  | .length => 'l'

@[simp]
theorem measureOf?_char (m : Measure) : measureOf? m.char = some m := by
  cases m <;> rfl

variable {sign : Char} {side : Side}

theorem numeralFirst_eq_none {cs : List Char} (h : sign ∉ cs) :
    numeralFirst sign side cs = none := by
  rw [numeralFirst]
  rcases hn : takeNumeral cs with _ | n
  · rfl
  · have hsign : takeSign sign n.2 = none :=
      takeSign_eq_none fun hs => h ((takeNumeral_suffix hn).mem hs)
    simp [hsign]

theorem numeralFirst_cons_eq_none {c : Char} (hd : isDecimalDigit c = false) (hm : c ≠ '-')
    (cs : List Char) : numeralFirst sign side (c :: cs) = none := by
  rw [numeralFirst, takeNumeral_cons_eq_none hd hm]
  rfl

theorem variableFirst_eq_none {before : Option Char} {cs : List Char} (h : sign ∉ cs) :
    variableFirst sign side before cs = none := by
  cases cs with
  | nil => rfl
  | cons c rest =>
    have hsign : takeSign sign rest = none :=
      takeSign_eq_none fun hs => h (List.mem_cons_of_mem _ hs)
    simp only [variableFirst, hsign]
    rcases measureOf? c with _ | m
    · rfl
    · split_ifs <;> rfl

theorem variableFirst_cons_eq_none {before : Option Char} {c : Char} (h : measureOf? c = none)
    (cs : List Char) : variableFirst sign side before (c :: cs) = none := by
  rw [variableFirst, h]
  rfl

theorem numeralFirst_written (hs : isBlank sign = false) {numeral : List Char}
    (hn : Numeral numeral) (m : Measure) {rest : List Char} (hr : endsWord rest = true) :
    numeralFirst sign side (numeral ++ ' ' :: sign :: '=' :: ' ' :: m.char :: rest)
      = some (⟨m, side, numeral⟩, rest) := by
  have hends : EndsNumeral (' ' :: sign :: '=' :: ' ' :: m.char :: rest) := by
    intro c hc
    cases hc
    exact ⟨by decide, by decide⟩
  have hsign : takeSign sign (' ' :: sign :: '=' :: ' ' :: m.char :: rest)
      = some (m.char :: rest) := by
    refine takeSign_wide hs fun c hc => ?_
    cases hc
    cases m <;> decide
  simp [numeralFirst, takeNumeral_append hn hends, hsign, hr]

theorem variableFirst_written (hs : isBlank sign = false) {numeral : List Char}
    (hn : Numeral numeral) (m : Measure) {before : Option Char}
    (hb : before.any isWordChar = false) :
    variableFirst sign side before (m.char :: ' ' :: sign :: '=' :: ' ' :: numeral)
      = some (⟨m, side, numeral⟩, []) := by
  have hsign : takeSign sign (' ' :: sign :: '=' :: ' ' :: numeral) = some numeral :=
    takeSign_wide hs hn.tight.head
  have hends : EndsNumeral [] := by simp [EndsNumeral]
  have htake : takeNumeral numeral = some (numeral, []) := by
    simpa using takeNumeral_append hn hends
  simp [variableFirst, hb, hsign, htake]

/-! ## Scanning -/

variable {p : Pattern}

/-- What stands right in front of what follows this text. -/
def lastOf (before : Option Char) (cs : List Char) : Option Char :=
  cs.foldl (fun _ c => some c) before

/-- A pattern passes over what it has found. -/
theorem scan_skip (rest : List Char) : ∀ (mid : List Char) (before : Option Char),
    scan p before mid.length (mid ++ rest)
      = ((scan p (lastOf before mid) 0 rest).1,
        List.replicate mid.length true ++ (scan p (lastOf before mid) 0 rest).2)
  | [], before => rfl
  | c :: mid, before => by
    rw [List.length_cons, List.cons_append, scan, scan_skip rest mid (some c)]
    rfl

theorem scan_found {before : Option Char} {c : Char} {mid rest : List Char} {found : Comparison}
    (h : p before (c :: (mid ++ rest)) = some (found, rest)) :
    scan p before 0 (c :: (mid ++ rest))
      = (found :: (scan p (lastOf (some c) mid) 0 rest).1,
        List.replicate (mid.length + 1) true ++ (scan p (lastOf (some c) mid) 0 rest).2) := by
  have hlen : (mid ++ rest).length - rest.length = mid.length := by simp
  rw [scan, h]
  dsimp only
  rw [hlen, scan_skip rest mid (some c)]
  rfl

/-- A pattern goes on over what it does not match. -/
theorem scan_pass (rest : List Char) : ∀ (mid : List Char) (before : Option Char),
    (∀ pre c post b, mid = pre ++ c :: post → p b (c :: (post ++ rest)) = none) →
    scan p before 0 (mid ++ rest)
      = ((scan p (lastOf before mid) 0 rest).1,
        List.replicate mid.length false ++ (scan p (lastOf before mid) 0 rest).2)
  | [], before, _ => rfl
  | c :: mid, before, h => by
    have hmid := scan_pass rest mid (some c) fun pre d post b hm =>
      h (c :: pre) d post b (by rw [hm, List.cons_append])
    rw [List.cons_append, scan, h [] c mid before rfl]
    dsimp only
    rw [hmid]
    rfl

theorem scan_eq_nil {cs : List Char} (before : Option Char)
    (h : ∀ pre c post b, cs = pre ++ c :: post → p b (c :: post) = none) :
    scan p before 0 cs = ([], List.replicate cs.length false) := by
  have hpass := scan_pass [] cs before fun pre c post b hcs => by
    rw [List.append_nil]
    exact h pre c post b hcs
  simpa [scan] using hpass

/-- Up to here no numeral begins, and from here on the sign does not occur. -/
theorem scan_numeralFirst_eq_nil (pre : List Char) {post : List Char} (before : Option Char)
    (hpre : (pre.all fun c => !isDecimalDigit c && c != '-') = true) (hpost : sign ∉ post) :
    scan (fun _ => numeralFirst sign side) before 0 (pre ++ post)
      = ([], List.replicate (pre ++ post).length false) := by
  rw [scan_pass post pre before fun pre' c post' b hp => ?_,
    scan_eq_nil _ fun pre' c post' b hp => ?_, List.length_append, List.replicate_add]
  · exact numeralFirst_eq_none fun h => hpost (hp ▸ List.mem_append_right _ h)
  · have hc := List.all_eq_true.1 hpre c (hp ▸ List.mem_append_right _ List.mem_cons_self)
    simp only [Bool.and_eq_true, Bool.not_eq_true', bne_iff_ne] at hc
    exact numeralFirst_cons_eq_none hc.1 hc.2 _

theorem scan_variableFirst_eq_nil {cs : List Char} (before : Option Char) (h : sign ∉ cs) :
    scan (variableFirst sign side) before 0 cs = ([], List.replicate cs.length false) :=
  scan_eq_nil before fun _ _ _ _ hcs =>
    variableFirst_eq_none fun hs => h (hcs ▸ List.mem_append_right _ hs)

/-! ## Bound expressions as written -/

/-- The variable in front of a numeral. -/
def comparison (m : Measure) (sign : Char) (numeral : List Char) : List Char :=
  m.char :: ' ' :: sign :: '=' :: ' ' :: numeral

/-- The bound expression with these numerals. -/
def written (m : Measure) : Option (List Char) → Option (List Char) → List Char
  | some lo, some hi => lo ++ (' ' :: '<' :: '=' :: ' ' :: comparison m '<' hi)
  | some lo, none => comparison m '>' lo
  | none, some hi => comparison m '<' hi
  | none, none => [m.char]

variable {m : Measure}

/-- What stands in bound expressions beside digits and signs. -/
def boundMarks : List Char := ['x', 'l', ' ', '=', '-', '.']

theorem not_mem_comparison {numeral : List Char} (hn : Numeral numeral) {c : Char}
    (hc : c ∉ boundMarks ∧ isAsciiDigit c = false) (hs : c ≠ sign) :
    c ∉ comparison m sign numeral := by
  simp only [boundMarks, List.mem_cons, List.not_mem_nil, not_or, or_false] at hc
  obtain ⟨⟨hx, hl, hblank, hequal, hminus, hpoint⟩, hd⟩ := hc
  have hm : c ≠ m.char := by
    cases m
    · exact hx
    · exact hl
  simp [comparison, hm, hs, hblank, hequal, hn.not_mem ⟨hminus, hpoint, hd⟩]

theorem not_mem_between {lo hi : List Char} (hlo : Numeral lo) (hhi : Numeral hi) {c : Char}
    (hc : c ∉ boundMarks ∧ isAsciiDigit c = false) (hs : c ≠ '<') :
    c ∉ written m (some lo) (some hi) := by
  have hcomparison : c ∉ comparison m '<' hi := not_mem_comparison hhi hc hs
  simp only [boundMarks, List.mem_cons, List.not_mem_nil, not_or, or_false] at hc
  obtain ⟨⟨hx, hl, hblank, hequal, hminus, hpoint⟩, hd⟩ := hc
  simp [written, hcomparison, hs, hblank, hequal, hlo.not_mem ⟨hminus, hpoint, hd⟩]

theorem not_mem_written {lo hi : Option (List Char)} (hlo : ∀ cs ∈ lo, Numeral cs)
    (hhi : ∀ cs ∈ hi, Numeral cs) {c : Char} (hc : c ∉ boundMarks ∧ isAsciiDigit c = false)
    (hless : c ≠ '<') (hmore : c ≠ '>') : c ∉ written m lo hi := by
  rcases lo with _ | lo <;> rcases hi with _ | hi
  · simp only [boundMarks, List.mem_cons, not_or] at hc
    cases m
    · simpa [written, Measure.char] using hc.1.1
    · simpa [written, Measure.char] using hc.1.2.1
  · exact not_mem_comparison (hhi hi rfl) hc hless
  · exact not_mem_comparison (hlo lo rfl) hc hmore
  · exact not_mem_between (hlo lo rfl) (hhi hi rfl) hc hless

/-- One of the signs stands in a bound expression, the other one does not. -/
theorem sign_written {lo hi : Option (List Char)} (hlo : ∀ cs ∈ lo, Numeral cs)
    (hhi : ∀ cs ∈ hi, Numeral cs) (h : lo.isSome ∨ hi.isSome) :
    ('<' ∈ written m lo hi ∧ '>' ∉ written m lo hi)
      ∨ ('>' ∈ written m lo hi ∧ '<' ∉ written m lo hi) := by
  rcases lo with _ | lo <;> rcases hi with _ | hi
  · simp at h
  · exact .inl ⟨by simp [written, comparison],
      not_mem_comparison (hhi hi rfl) (by decide) (by decide)⟩
  · exact .inr ⟨by simp [written, comparison],
      not_mem_comparison (hlo lo rfl) (by decide) (by decide)⟩
  · exact .inl ⟨by simp [written, comparison],
      not_mem_between (hlo lo rfl) (hhi hi rfl) (by decide) (by decide)⟩

theorem tight_char (m : Measure) : Tight [m.char] :=
  tight_of_ends (by cases m <;> decide) (by cases m <;> decide)

theorem tight_comparison {numeral : List Char} (hn : Numeral numeral) :
    Tight (comparison m sign numeral) := by
  exact (tight_char m).append hn.tight (by simp) hn.ne_nil [' ', sign, '=', ' ']

theorem tight_written {lo hi : Option (List Char)} (hlo : ∀ cs ∈ lo, Numeral cs)
    (hhi : ∀ cs ∈ hi, Numeral cs) : Tight (written m lo hi) := by
  rcases lo with _ | lo <;> rcases hi with _ | hi
  · exact tight_char m
  · exact tight_comparison (hhi hi rfl)
  · exact tight_comparison (hlo lo rfl)
  · have hl := hlo lo rfl
    exact hl.tight.append (tight_comparison (hhi hi rfl)) hl.ne_nil (by simp [comparison])
      [' ', '<', '=', ' ']

theorem scan_comparison (hs : isBlank sign = false) {numeral : List Char} (hn : Numeral numeral)
    {before : Option Char} (hb : before.any isWordChar = false) :
    scan (variableFirst sign side) before 0 (comparison m sign numeral)
      = ([⟨m, side, numeral⟩], List.replicate (numeral.length + 5) true) := by
  have hp : variableFirst sign side before
      (m.char :: ((' ' :: sign :: '=' :: ' ' :: numeral) ++ []))
        = some (⟨m, side, numeral⟩, []) := by
    rw [List.append_nil]
    exact variableFirst_written hs hn m hb
  have hscan := scan_found hp
  rw [List.append_nil] at hscan
  rw [comparison, hscan]
  simp [scan]

theorem scan_lower_between {lo hi : List Char} (hlo : Numeral lo) (hhi : Numeral hi) :
    scan (fun _ => numeralFirst '<' .min) none 0 (written m (some lo) (some hi))
      = ([⟨m, .min, lo⟩], List.replicate (lo.length + 5) true
          ++ List.replicate (hi.length + 4) false) := by
  obtain ⟨c, cs, rfl⟩ := List.exists_cons_of_ne_nil hlo.ne_nil
  have hfound : numeralFirst '<' .min
      ((c :: cs) ++ ' ' :: '<' :: '=' :: ' ' :: m.char :: ' ' :: '<' :: '=' :: ' ' :: hi)
        = some (⟨m, .min, c :: cs⟩, [' ', '<'] ++ '=' :: ' ' :: hi) :=
    numeralFirst_written (by decide) hlo m rfl
  have hw : (c :: cs) ++ ' ' :: '<' :: '=' :: ' ' :: m.char :: ' ' :: '<' :: '=' :: ' ' :: hi
      = c :: ((cs ++ [' ', '<', '=', ' ', m.char]) ++ ([' ', '<'] ++ '=' :: ' ' :: hi)) := by
    simp
  have hrest : '<' ∉ '=' :: ' ' :: hi := by
    simp [hhi.not_mem (c := '<') (by decide)]
  rw [hw] at hfound
  have hscan := @scan_found (fun _ => numeralFirst '<' .min) none _ _ _ _ hfound
  rw [scan_numeralFirst_eq_nil _ _ (by decide) hrest] at hscan
  simpa [written, comparison] using hscan

theorem measureOf?_eq_none {c : Char} (hx : c ≠ 'x') (hl : c ≠ 'l') : measureOf? c = none := by
  rw [measureOf?, if_neg hx, if_neg hl]

theorem scan_upper_between {lo hi : List Char} (hlo : Numeral lo) (hhi : Numeral hi) :
    scan (variableFirst '<' .max) none 0 (written m (some lo) (some hi))
      = ([⟨m, .max, hi⟩], List.replicate (lo.length + 4) false
          ++ List.replicate (hi.length + 5) true) := by
  have hpass : ∀ c ∈ lo ++ [' ', '<', '=', ' '], measureOf? c = none := by
    intro c hc
    rcases List.mem_append.1 hc with hc | hc
    · exact measureOf?_eq_none (fun h => hlo.not_mem (by decide) (h ▸ hc))
        (fun h => hlo.not_mem (by decide) (h ▸ hc))
    · simp only [List.mem_cons, List.not_mem_nil, or_false] at hc
      rcases hc with rfl | rfl | rfl | rfl <;> rfl
  have hw : written m (some lo) (some hi)
      = (lo ++ [' ', '<', '=', ' ']) ++ comparison m '<' hi := by
    simp [written]
  have hlast : (lastOf none (lo ++ [' ', '<', '=', ' '])).any isWordChar = false := by
    rw [lastOf, List.foldl_append]
    exact (by decide : isWordChar ' ' = false)
  rw [hw, scan_pass _ _ none fun pre c post b h => ?_, scan_comparison (by decide) hhi hlast]
  · simp
  · exact variableFirst_cons_eq_none (hpass c (h ▸ by simp)) _

/-- Where every character is covered by one of the masks, nothing is left. -/
theorem uncovered_eq_nil : ∀ (spec : List Char) (masks : List (List Bool)),
    (∀ i < spec.length, ∃ mask ∈ masks, mask[i]? = some true) → uncovered spec masks = []
  | [], _, _ => rfl
  | c :: cs, masks, h => by
    have hhead : (masks.any fun mask => mask.headD false) = true := by
      obtain ⟨mask, hm, hi⟩ := h 0 (by simp)
      refine List.any_eq_true.2 ⟨mask, hm, ?_⟩
      rcases mask with _ | ⟨b, mask⟩
      · simp at hi
      · simpa using hi
    have htail := uncovered_eq_nil cs (masks.map List.tail) fun i hi => by
      obtain ⟨mask, hm, hi⟩ := h (i + 1) (by simpa using hi)
      exact ⟨mask.tail, List.mem_map_of_mem hm, by simpa using hi⟩
    simp only [uncovered, hhead, htail, if_true]

theorem length_between (m : Measure) (lo hi : List Char) :
    (written m (some lo) (some hi)).length = lo.length + hi.length + 9 := by
  simp only [written, comparison, List.length_append, List.length_cons]
  omega

theorem scan_patterns_between {lo hi : List Char} (hlo : Numeral lo) (hhi : Numeral hi) :
    (patterns.map fun p => scan p none 0 (written m (some lo) (some hi))) = [
      ([], List.replicate (lo.length + hi.length + 9) false),
      ([⟨m, .min, lo⟩], List.replicate (lo.length + 5) true
        ++ List.replicate (hi.length + 4) false),
      ([⟨m, .max, hi⟩], List.replicate (lo.length + 4) false
        ++ List.replicate (hi.length + 5) true),
      ([], List.replicate (lo.length + hi.length + 9) false)] := by
  have hmore : '>' ∉ written m (some lo) (some hi) :=
    not_mem_between hlo hhi (by decide) (by decide)
  have hlength := length_between m lo hi
  have hfirst : scan (variableFirst '>' .min) none 0 (written m (some lo) (some hi))
      = ([], List.replicate (lo.length + hi.length + 9) false) :=
    hlength ▸ scan_variableFirst_eq_nil none hmore
  have hlast : scan (fun _ => numeralFirst '>' .max) none 0 (written m (some lo) (some hi))
      = ([], List.replicate (lo.length + hi.length + 9) false) :=
    hlength ▸ scan_numeralFirst_eq_nil [] none rfl hmore
  simp only [patterns, List.map_cons, List.map_nil, hfirst, scan_lower_between hlo hhi,
    scan_upper_between hlo hhi, hlast]

theorem scan_numeralFirst_comparison {numeral : List Char} (hn : Numeral numeral)
    (hs : sign = '<' ∨ sign = '>') :
    scan (fun _ => numeralFirst sign side) none 0 (comparison m sign numeral)
      = ([], List.replicate (numeral.length + 5) false) := by
  have hpre : ([m.char, ' ', sign].all fun c => !isDecimalDigit c && c != '-') = true := by
    rcases hs with rfl | rfl <;> cases m <;> decide
  have hpost : sign ∉ '=' :: ' ' :: numeral := by
    rcases hs with rfl | rfl
    · simp [hn.not_mem (c := '<') (by decide)]
    · simp [hn.not_mem (c := '>') (by decide)]
  have hscan := @scan_numeralFirst_eq_nil sign side _ _ none hpre hpost
  simpa [comparison] using hscan

theorem scan_patterns_above {lo : List Char} (hlo : Numeral lo) :
    (patterns.map fun p => scan p none 0 (written m (some lo) none)) = [
      ([⟨m, .min, lo⟩], List.replicate (lo.length + 5) true),
      ([], List.replicate (lo.length + 5) false),
      ([], List.replicate (lo.length + 5) false),
      ([], List.replicate (lo.length + 5) false)] := by
  have hless : '<' ∉ comparison m '>' lo := not_mem_comparison hlo (by decide) (by decide)
  have hfirst : scan (variableFirst '>' .min) none 0 (comparison m '>' lo)
      = ([⟨m, .min, lo⟩], List.replicate (lo.length + 5) true) :=
    scan_comparison (by decide) hlo rfl
  have hsecond : scan (fun _ => numeralFirst '<' .min) none 0 (comparison m '>' lo)
      = ([], List.replicate (lo.length + 5) false) := scan_numeralFirst_eq_nil [] none rfl hless
  have hthird : scan (variableFirst '<' .max) none 0 (comparison m '>' lo)
      = ([], List.replicate (lo.length + 5) false) := scan_variableFirst_eq_nil none hless
  have hlast : scan (fun _ => numeralFirst '>' .max) none 0 (comparison m '>' lo)
      = ([], List.replicate (lo.length + 5) false) := scan_numeralFirst_comparison hlo (.inr rfl)
  simp only [patterns, List.map_cons, List.map_nil, written, hfirst, hsecond, hthird, hlast]

theorem scan_patterns_below {hi : List Char} (hhi : Numeral hi) :
    (patterns.map fun p => scan p none 0 (written m none (some hi))) = [
      ([], List.replicate (hi.length + 5) false),
      ([], List.replicate (hi.length + 5) false),
      ([⟨m, .max, hi⟩], List.replicate (hi.length + 5) true),
      ([], List.replicate (hi.length + 5) false)] := by
  have hmore : '>' ∉ comparison m '<' hi := not_mem_comparison hhi (by decide) (by decide)
  have hfirst : scan (variableFirst '>' .min) none 0 (comparison m '<' hi)
      = ([], List.replicate (hi.length + 5) false) := scan_variableFirst_eq_nil none hmore
  have hsecond : scan (fun _ => numeralFirst '<' .min) none 0 (comparison m '<' hi)
      = ([], List.replicate (hi.length + 5) false) := scan_numeralFirst_comparison hhi (.inl rfl)
  have hthird : scan (variableFirst '<' .max) none 0 (comparison m '<' hi)
      = ([⟨m, .max, hi⟩], List.replicate (hi.length + 5) true) :=
    scan_comparison (by decide) hhi rfl
  have hlast : scan (fun _ => numeralFirst '>' .max) none 0 (comparison m '<' hi)
      = ([], List.replicate (hi.length + 5) false) := scan_numeralFirst_eq_nil [] none rfl hmore
  simp only [patterns, List.map_cons, List.map_nil, written, hfirst, hsecond, hthird, hlast]

theorem comparisons_eq (spec : List Char) :
    comparisons spec = (patterns.map fun p => scan p none 0 spec).flatMap (·.1) := by
  rw [comparisons, List.flatMap_map]

theorem leftover_eq_nil {spec : List Char} {masks : List (List Bool)}
    (hm : (patterns.map fun p => scan p none 0 spec).map (·.2) = masks)
    (h : ∀ i < spec.length, ∃ mask ∈ masks, mask[i]? = some true) : leftover spec = [] := by
  rw [List.map_map] at hm
  have hcov := uncovered_eq_nil spec masks h
  rw [leftover]
  rw [show (patterns.map fun p => (scan p none 0 spec).2) = masks from hm, hcov]
  rfl

/-- The comparisons of a bound expression, as they are written. -/
theorem comparisons_written {lo hi : Option (List Char)} (hlo : ∀ cs ∈ lo, Numeral cs)
    (hhi : ∀ cs ∈ hi, Numeral cs) (h : lo.isSome ∨ hi.isSome) :
    comparisons (written m lo hi)
      = lo.toList.map (⟨m, .min, ·⟩) ++ hi.toList.map (⟨m, .max, ·⟩) := by
  rw [comparisons_eq]
  rcases lo with _ | lo <;> rcases hi with _ | hi
  · simp at h
  · rw [scan_patterns_below (hhi hi rfl)]
    rfl
  · rw [scan_patterns_above (hlo lo rfl)]
    rfl
  · rw [scan_patterns_between (hlo lo rfl) (hhi hi rfl)]
    rfl

theorem leftover_written {lo hi : Option (List Char)} (hlo : ∀ cs ∈ lo, Numeral cs)
    (hhi : ∀ cs ∈ hi, Numeral cs) (h : lo.isSome ∨ hi.isSome) :
    leftover (written m lo hi) = [] := by
  rcases lo with _ | lo <;> rcases hi with _ | hi
  · simp at h
  · refine leftover_eq_nil (congrArg _ (scan_patterns_below (hhi hi rfl))) fun i hlt => ?_
    have hlength : (written m none (some hi)).length = hi.length + 5 := rfl
    rw [hlength] at hlt
    exact ⟨_, .tail _ (.tail _ (.head _)), List.getElem?_replicate_of_lt hlt⟩
  · refine leftover_eq_nil (congrArg _ (scan_patterns_above (hlo lo rfl))) fun i hlt => ?_
    have hlength : (written m (some lo) none).length = lo.length + 5 := rfl
    rw [hlength] at hlt
    exact ⟨_, .head _, List.getElem?_replicate_of_lt hlt⟩
  · refine leftover_eq_nil (congrArg _ (scan_patterns_between (hlo lo rfl) (hhi hi rfl)))
      fun i hlt => ?_
    rw [length_between] at hlt
    -- what the two patterns found overlaps in the variable
    by_cases hlower : i < lo.length + 5
    · refine ⟨_, .tail _ (.head _), ?_⟩
      rw [List.getElem?_append_left (by simpa using hlower)]
      exact List.getElem?_replicate_of_lt hlower
    · refine ⟨_, .tail _ (.tail _ (.head _)), ?_⟩
      rw [List.getElem?_append_right (by simp; omega)]
      exact List.getElem?_replicate_of_lt (by simp; omega)

end SlashCommands.Bounds
