import SlashCommands.Literal
import SlashCommands.Proofs.BlankText
import SlashCommands.Proofs.NearestDouble

/-!
# Numerals that read back

A numeral (`Numeral`) is a sign and digits, with a point among them or without one. The text of an
integer is a numeral without a point, the text of a finite double one with a point, and both read
back as what they were written for (`Number.spells_int`, `Number.spells_float`). For a double this
rests on the search for the shortest digits, which stops at digits that read back only
(`Binary64.shortestCut_readsBack`), and on digits after the point that are not all zeros.
-/

namespace SlashCommands

open Text

/-! ## Digits -/

namespace Decimal

/-- The sign of a numeral, written only when it is a minus. -/
def signChars (negative : Bool) : List Char :=
  if negative then ['-'] else []

theorem isAsciiDigit_eq (c : Char) : isAsciiDigit c = c.isDigit := rfl

theorem toNat_of_isAsciiDigit {c : Char} (h : isAsciiDigit c = true) :
    48 ≤ c.toNat ∧ c.toNat ≤ 57 := by
  rw [isAsciiDigit_eq, Char.isDigit, Bool.and_eq_true, decide_eq_true_eq, decide_eq_true_eq] at h
  exact h

theorem digitsValue_eq (cs : List Char) : digitsValue cs = Nat.ofDigitChars 10 cs 0 := by
  rw [Nat.ofDigitChars_eq_foldl]
  rfl

theorem digitsValue_toDigits (n : Nat) : digitsValue (Nat.toDigits 10 n) = n := by
  rw [digitsValue_eq, Nat.ofDigitChars_ten_toDigits]

theorem digitsValue_append (cs ds : List Char) :
    digitsValue (cs ++ ds) = 10 ^ ds.length * digitsValue cs + digitsValue ds := by
  rw [digitsValue_eq, digitsValue_eq, digitsValue_eq, Nat.ofDigitChars_append,
    Nat.ofDigitChars_eq_ofDigitChars_zero]

theorem digitsValue_zeros (n : Nat) : digitsValue (List.replicate n '0') = 0 := by
  rw [digitsValue_eq, Nat.ofDigitChars_replicate_zero, Nat.mul_zero]

/-- So many digits are less than that power of ten. -/
theorem digitsValue_lt {cs : List Char} (h : ∀ c ∈ cs, isAsciiDigit c = true) :
    digitsValue cs < 10 ^ cs.length := by
  induction cs with
  | nil => exact Nat.one_pos
  | cons c cs ih =>
    have hc : digitsValue [c] ≤ 9 := by
      have hrange := toNat_of_isAsciiDigit (h c List.mem_cons_self)
      have hzero : '0'.toNat = 48 := rfl
      simp only [digitsValue, List.foldl_cons, List.foldl_nil, digitValue, hzero]
      omega
    have hcs := ih fun d hd => h d (List.mem_cons_of_mem _ hd)
    rw [← List.singleton_append, digitsValue_append, List.length_append, List.length_singleton,
      Nat.pow_add, Nat.pow_one]
    have := Nat.mul_le_mul_left (10 ^ cs.length) hc
    omega

theorem allDigits_iff {cs : List Char} :
    allDigits cs = true ↔ cs ≠ [] ∧ ∀ c ∈ cs, isAsciiDigit c = true := by
  simp [allDigits]

theorem isAsciiDigit_of_mem_toDigits {n : Nat} {c : Char} (h : c ∈ Nat.toDigits 10 n) :
    isAsciiDigit c = true :=
  Nat.isDigit_of_mem_toDigits (by decide) (by decide) h

theorem allDigits_toDigits (n : Nat) : allDigits (Nat.toDigits 10 n) = true :=
  allDigits_iff.2 ⟨Nat.toDigits_ne_nil, fun _ => isAsciiDigit_of_mem_toDigits⟩

/-- What is taken while a test holds ends where the test fails. -/
theorem span_append {p : Char → Bool} {cs : List Char} (hcs : ∀ c ∈ cs, p c = true)
    (rest : List Char) (hrest : ∀ c, rest.head? = some c → p c = false) :
    (cs ++ rest).takeWhile p = cs ∧ (cs ++ rest).dropWhile p = rest := by
  rw [List.takeWhile_append_of_pos hcs, List.dropWhile_append_of_pos hcs]
  cases rest with
  | nil => simp
  | cons c rest => simp [hrest c rfl]

theorem takeSign_append {digits : List Char} (hd : allDigits digits = true) (rest : List Char)
    (negative : Bool) :
    takeSign (signChars negative ++ (digits ++ rest)) = (negative, digits ++ rest) := by
  obtain ⟨hne, hdigit⟩ := allDigits_iff.1 hd
  obtain ⟨c, cs, rfl⟩ := List.exists_cons_of_ne_nil hne
  have hc := hdigit c List.mem_cons_self
  cases negative with
  | true => rfl
  | false =>
    have hminus : c ≠ '-' := by rintro rfl; simp [isAsciiDigit] at hc
    have hplus : c ≠ '+' := by rintro rfl; simp [isAsciiDigit] at hc
    simp [signChars, takeSign, hminus, hplus]

end Decimal

/-! ## Numerals -/

open Decimal

/-- A sign, digits, and maybe a point with more digits. -/
inductive Numeral : List Char → Prop
  | whole (negative : Bool) {digits : List Char} (h : allDigits digits = true) :
    Numeral (signChars negative ++ digits)
  | point (negative : Bool) {digits fraction : List Char} (h : allDigits digits = true)
    (hf : allDigits fraction = true) :
    Numeral (signChars negative ++ (digits ++ '.' :: fraction))

/-- What numerals are made of. -/
theorem Numeral.mem {cs : List Char} (h : Numeral cs) :
    ∀ c ∈ cs, c = '-' ∨ c = '.' ∨ isAsciiDigit c = true := by
  have hsign : ∀ negative, ∀ c ∈ signChars negative, c = '-' := by
    intro negative c hc
    cases negative <;> simp_all [signChars]
  cases h with
  | whole negative h =>
    intro c hc
    rcases List.mem_append.1 hc with hc | hc
    · exact .inl (hsign negative c hc)
    · exact .inr (.inr ((allDigits_iff.1 h).2 c hc))
  | point negative h hf =>
    intro c hc
    simp only [List.mem_append, List.mem_cons] at hc
    rcases hc with hc | hc | hc | hc
    · exact .inl (hsign negative c hc)
    · exact .inr (.inr ((allDigits_iff.1 h).2 c hc))
    · exact .inr (.inl hc)
    · exact .inr (.inr ((allDigits_iff.1 hf).2 c hc))

theorem Numeral.ne_nil {cs : List Char} (h : Numeral cs) : cs ≠ [] := by
  cases h with
  | whole negative h => simp [(allDigits_iff.1 h).1]
  | point negative h hf => simp

theorem Numeral.not_mem {cs : List Char} (h : Numeral cs) {c : Char}
    (hc : c ≠ '-' ∧ c ≠ '.' ∧ isAsciiDigit c = false) : c ∉ cs := fun hmem => by
  rcases h.mem c hmem with rfl | rfl | hd
  · exact hc.1 rfl
  · exact hc.2.1 rfl
  · exact absurd hd (by simp [hc.2.2])

theorem isBlank_of_isAsciiDigit {c : Char} (h : isAsciiDigit c = true) : isBlank c = false := by
  have hrange := toNat_of_isAsciiDigit h
  simp only [isBlank, Bool.or_eq_false_iff, Bool.and_eq_false_iff, decide_eq_false_iff_not,
    beq_eq_false_iff_ne]
  omega

theorem Numeral.tight {cs : List Char} (h : Numeral cs) : Tight cs := by
  refine tight_of_forall fun c hc => ?_
  rcases h.mem c hc with rfl | rfl | hd
  · rfl
  · rfl
  · exact isBlank_of_isAsciiDigit hd

/-- How a number is written. -/
structure Number.Spells (n : Number) (cs : List Char) : Prop where
  numeral : Numeral cs
  reads : Number.ofChars? cs = some n

theorem Number.isFinite_of_ofChars? {cs : List Char} {x : Binary64}
    (h : Number.ofChars? cs = some (.float x)) : x.isFinite = true := by
  rw [Number.ofChars?] at h
  split at h
  · cases h
  · obtain ⟨y, hy, hx⟩ := Option.map_eq_some_iff.1 h
    cases hx
    exact (Option.filter_eq_some_iff.1 hy).2

/-! ## Integers -/

theorem readInt_whole (negative : Bool) {digits : List Char} (h : allDigits digits = true) :
    readInt (signChars negative ++ digits)
      = some (if negative then -(digitsValue digits : Int) else digitsValue digits) := by
  have hs : takeSign (signChars negative ++ digits) = (negative, digits) := by
    simpa using takeSign_append h [] negative
  simp [readInt, hs, readNat, h]

theorem int64Text_eq (v : Int64) :
    (int64Text v).toList = signChars (v.toInt < 0) ++ Nat.toDigits 10 v.toInt.natAbs := by
  rw [int64Text]
  rcases v.toInt with n | n
  · simp [signChars, toString, Int.repr, Nat.repr_eq_ofList_toDigits]
  · simp [signChars, toString, Int.repr, Nat.repr_eq_ofList_toDigits]

theorem int64OfInt?_toInt (v : Int64) : int64OfInt? v.toInt = some v := by
  rw [int64OfInt?, if_pos ⟨v.minValue_le_toInt, v.toInt_le⟩, Int64.ofInt_toInt]

theorem Number.spells_int (v : Int64) : (Number.int v).Spells (int64Text v).toList := by
  have hdigits := allDigits_toDigits v.toInt.natAbs
  have hnumeral : Numeral (int64Text v).toList := int64Text_eq v ▸ .whole _ hdigits
  have hint : readInt (int64Text v).toList = some v.toInt := by
    rw [int64Text_eq, readInt_whole _ hdigits, digitsValue_toDigits]
    by_cases hv : v.toInt < 0
    · have habs : -(v.toInt.natAbs : Int) = v.toInt := by omega
      rw [decide_eq_true hv, if_pos rfl, habs]
    · have habs : (v.toInt.natAbs : Int) = v.toInt := by omega
      rw [decide_eq_false hv, if_neg Bool.false_ne_true, habs]
  refine ⟨hnumeral, ?_⟩
  rw [Number.ofChars?, trim_of_tight hnumeral.tight, hint]
  simp [int64OfInt?_toInt]

/-! ## Decimals -/

namespace Binary64

theorem two_pow_le_ten_pow {i j : Nat} (h : i ≤ 3 * j) : 2 ^ i ≤ 10 ^ j :=
  calc 2 ^ i ≤ 2 ^ (3 * j) := Nat.pow_le_pow_right (by decide) h
    _ = 8 ^ j := Nat.pow_mul 2 3 j
    _ ≤ 10 ^ j := Nat.pow_le_pow_left (by decide) j

/-- Where a power of ten is cut short, the value is zero or infinite already. -/
theorem ofDecimal_eq_nearest {k : Nat} (hk : k = 1074) (negative : Bool) {digits count : Nat}
    (exponent : Int) (hd : digits < 10 ^ count) : ofDecimal negative digits exponent count
      = nearest negative (digits * 10 ^ exponent.toNat) (10 ^ (-exponent).toNat) := by
  rw [ofDecimal]
  split_ifs with hlow hhigh
  · have hzero : nearestMagnitude (digits * 10 ^ exponent.toNat) (10 ^ (-exponent).toNat) = 0 := by
      rcases hlow with rfl | hlow
      · rw [Nat.zero_mul, nearestMagnitude_zero hk]
      · obtain ⟨more, hmore⟩ : ∃ more, (-exponent).toNat = count + more + 401 :=
          ⟨(-exponent).toNat - count - 401, by omega⟩
        have hnone : exponent.toNat = 0 := by omega
        rw [hmore, hnone, Nat.pow_zero, Nat.mul_one]
        refine nearestMagnitude_eq_zero hk ?_
        calc digits * 2 ^ (k + 1) ≤ digits * 10 ^ 401 :=
              Nat.mul_le_mul_left _ (two_pow_le_ten_pow (by omega))
          _ < 10 ^ count * 10 ^ 401 := Nat.mul_lt_mul_of_pos_right hd (Nat.pow_pos (by decide))
          _ ≤ 10 ^ (count + more + 401) := by
            rw [← Nat.pow_add]
            exact Nat.pow_le_pow_right (by decide) (by omega)
    rw [nearest, hzero]
  · obtain ⟨l, hl⟩ : ∃ l, l = 1024 := ⟨_, rfl⟩
    have hone : (-exponent).toNat = 0 := by omega
    have hdigits : 1 ≤ digits := by omega
    have hpow : 2 ^ l * 1 ≤ digits * 10 ^ exponent.toNat :=
      calc 2 ^ l * 1 ≤ 10 ^ exponent.toNat := by
            rw [Nat.mul_one]
            exact two_pow_le_ten_pow (by omega)
        _ ≤ digits * 10 ^ exponent.toNat := Nat.le_mul_of_pos_left _ hdigits
    rw [hone, Nat.pow_zero, nearest, nearestMagnitude_eq_infinity hk hl Nat.one_pos hpow]
  · rfl

/-- A decimal with a point is the double nearest to its value, however many zeros it begins with. -/
theorem ofDecimal_point (negative : Bool) {digits fraction : List Char}
    (h : ∀ c ∈ digits ++ fraction, isAsciiDigit c = true) :
    ofDecimal negative (digitsValue (digits ++ fraction)) (-(fraction.length : Int))
      (digits ++ fraction).length
        = nearest negative (digitsValue (digits ++ fraction)) (10 ^ fraction.length) := by
  rw [ofDecimal_eq_nearest rfl negative _ (digitsValue_lt h)]
  simp

end Binary64

/-! ## Numerals with a point -/

theorem readInt_point (negative : Bool) {digits : List Char} (h : allDigits digits = true)
    (fraction : List Char) :
    readInt (signChars negative ++ (digits ++ '.' :: fraction)) = none := by
  have hpoint : allDigits (digits ++ '.' :: fraction) = false := by
    simp [allDigits, isAsciiDigit]
  simp [readInt, takeSign_append h, readNat, hpoint]

/-- The words for what is no finite number begin with a letter. -/
theorem lowerAscii_ne {digits rest word : List Char} (h : allDigits digits = true)
    (hw : ∀ c, word.head? = some c → isAsciiDigit c = false) :
    lowerAscii (digits ++ rest) ≠ word := by
  obtain ⟨hne, hdigit⟩ := allDigits_iff.1 h
  obtain ⟨c, cs, rfl⟩ := List.exists_cons_of_ne_nil hne
  have hc := hdigit c List.mem_cons_self
  rintro rfl
  have hlower : ¬ ('A' ≤ c ∧ c ≤ 'Z') := by
    rw [isAsciiDigit, Bool.and_eq_true, decide_eq_true_eq, decide_eq_true_eq] at hc
    exact fun hu => absurd (Char.le_trans hu.1 hc.2) (by decide)
  have hhead := hw c (by simp [lowerAscii, hlower])
  rw [hc] at hhead
  cases hhead

theorem readBinary64_point (negative : Bool) {digits fraction : List Char}
    (h : allDigits digits = true) (hf : allDigits fraction = true) :
    readBinary64 (signChars negative ++ (digits ++ '.' :: fraction))
      = some (.nearest negative (digitsValue (digits ++ fraction)) (10 ^ fraction.length)) := by
  obtain ⟨hne, hdigit⟩ := allDigits_iff.1 h
  obtain ⟨hfne, hfdigit⟩ := allDigits_iff.1 hf
  have hinf : lowerAscii (digits ++ '.' :: fraction) ≠ "inf".toList :=
    lowerAscii_ne h (by simp [isAsciiDigit])
  have hinfinity : lowerAscii (digits ++ '.' :: fraction) ≠ "infinity".toList :=
    lowerAscii_ne h (by simp [isAsciiDigit])
  have hnan : lowerAscii (digits ++ '.' :: fraction) ≠ "nan".toList :=
    lowerAscii_ne h (by simp [isAsciiDigit])
  have hwhole := span_append hdigit ('.' :: fraction) (by simp [isAsciiDigit])
  have hrest := span_append hfdigit [] (by simp)
  rw [List.append_nil] at hrest
  have hnearest := Binary64.ofDecimal_point negative fun c hc =>
    (List.mem_append.1 hc).elim (hdigit c) (hfdigit c)
  simp only [readBinary64, takeSign_append h, hinf, hinfinity, hnan, or_self, if_false,
    readUnsigned, hwhole, hrest]
  simp [hne, readExponent, ← hnearest]

theorem Number.ofChars?_point (negative : Bool) {digits fraction : List Char}
    (h : allDigits digits = true) (hf : allDigits fraction = true) {x : Binary64}
    (hx : Binary64.nearest negative (digitsValue (digits ++ fraction)) (10 ^ fraction.length) = x)
    (hfin : x.isFinite = true) :
    Number.ofChars? (signChars negative ++ (digits ++ '.' :: fraction)) = some (.float x) := by
  have hnumeral : Numeral (signChars negative ++ (digits ++ '.' :: fraction)) := .point _ h hf
  rw [Number.ofChars?, trim_of_tight hnumeral.tight, readInt_point _ h,
    readBinary64_point _ h hf, hx]
  simp [hfin]

/-! ## Doubles -/

namespace Binary64

variable {k : Nat} (hk : k = 1074)
include hk

/-! ### The shortest digits -/

theorem readsBack_iff {d : Cut} {m : Nat} :
    d.readsBack m = true ↔ nearestMagnitude d.value (10 ^ k) = m := by
  simp only [Cut.readsBack, Nat.pow_eq, ← hk, beq_iff_eq]

theorem exact_readsBack {m : Nat} (h : m < infinity) :
    (⟨exactDecimal m, 0⟩ : Cut).readsBack m = true := by
  have hten : 10 ^ k = 5 ^ k * 2 ^ k := Nat.mul_pow 5 2 k
  have hvalue : (⟨exactDecimal m, 0⟩ : Cut).value = 5 ^ k * unitsOf m := by
    simp only [Cut.value, exactDecimal, Nat.pow_eq, ← hk, Nat.pow_zero, Nat.mul_one]
    exact Nat.mul_comm _ _
  rw [readsBack_iff hk, hten, hvalue, nearestMagnitude_mul_left hk (Nat.pow_pos (by decide)),
    nearestMagnitude_units hk h]

omit hk in
theorem pick_eq_some {exact : Nat} {below above d : Cut} {b b' : Bool}
    (h : pick exact below above b b' = some d) : d = below ∧ b = true ∨ d = above ∧ b' = true := by
  cases b <;> cases b' <;> simp only [pick] at h
  · cases h
  · cases h
    exact .inr ⟨rfl, rfl⟩
  · cases h
    exact .inl ⟨rfl, rfl⟩
  · split_ifs at h
    · cases h
      exact .inl ⟨rfl, rfl⟩
    · cases h
      exact .inr ⟨rfl, rfl⟩

omit hk in
theorem readsBack_of_neighbour {m cut : Nat} {d : Cut} (h : neighbour m cut = some d) :
    d.readsBack m = true := by
  rw [neighbour] at h
  rcases pick_eq_some h with ⟨rfl, hd⟩ | ⟨rfl, hd⟩
  · exact hd
  · exact hd

/-- The search stops at digits that read back, in the end at all of them. -/
theorem searchCut_readsBack {m : Nat} (h : m < infinity) :
    ∀ tries cut, (searchCut m tries cut).readsBack m = true
  | 0, _ => exact_readsBack hk h
  | tries + 1, cut => by
    rw [searchCut]
    rcases hd : neighbour m cut with _ | d
    · exact searchCut_readsBack h tries (cut - 1)
    · exact readsBack_of_neighbour hd

theorem shortestCut_readsBack {m : Nat} (h : m < infinity) :
    (shortestCut m).readsBack m = true := by
  rw [shortestCut]
  split_ifs with hm
  · subst hm
    rw [readsBack_iff hk, Cut.value, Nat.zero_mul, nearestMagnitude_zero hk]
  · exact searchCut_readsBack hk h _ _

/-! ### Whole doubles -/

theorem isWhole_iff {x : Binary64} :
    x.isWhole = true ↔ x.magnitude < infinity ∧ 2 ^ k ∣ x.units := by
  simp only [isWhole, isFinite, Nat.pow_eq, ← hk, Bool.and_eq_true, decide_eq_true_eq, beq_iff_eq,
    Nat.dvd_iff_mod_eq_zero]

theorem wholeText_eq (x : Binary64) : x.wholeText.toList
    = signChars x.negative ++ (Nat.toDigits 10 (x.units / 2 ^ k) ++ '.' :: ['0']) := by
  simp only [wholeText, signText, signChars, Nat.pow_eq, ← hk, String.toList_ofList,
    List.append_assoc]

omit hk in
theorem ofMagnitude_self (x : Binary64) : ofMagnitude x.negative x.magnitude = x := by
  cases x with
  | mk negative magnitude hlt =>
    simp [ofMagnitude, Nat.mod_eq_of_lt hlt]

theorem spells_wholeText {x : Binary64} (h : x.isWhole = true) :
    (Number.float x).Spells x.wholeText.toList := by
  obtain ⟨hfin, n, hn⟩ := (isWhole_iff hk).1 h
  have hdigits := allDigits_toDigits n
  have hunits : x.units / 2 ^ k = n := by
    rw [hn, Nat.mul_div_cancel_left _ (Nat.two_pow_pos k)]
  rw [wholeText_eq hk, hunits]
  have hvalue : digitsValue (Nat.toDigits 10 n ++ ['0']) = 10 * n := by
    rw [digitsValue_append, digitsValue_toDigits]
    rfl
  have hround : nearestMagnitude (10 * n) (10 ^ 1) = x.magnitude := by
    have hscale : nearestMagnitude (2 ^ k * n) (2 ^ k * 1) = x.magnitude := by
      rw [← hn, Nat.mul_one]
      exact nearestMagnitude_units hk hfin
    rw [nearestMagnitude_mul_left hk (Nat.two_pow_pos k)] at hscale
    rw [← hscale]
    exact nearestMagnitude_mul_left hk (by decide) n 1
  have hread : nearest x.negative (10 * n) (10 ^ 1) = x := by
    rw [nearest, hround, ofMagnitude_self]
  refine ⟨.point _ hdigits (by decide), ?_⟩
  exact Number.ofChars?_point _ hdigits (by decide) (hvalue ▸ hread)
    (by simpa [isFinite] using hfin)

/-! ### Doubles with a fractional part -/

omit hk in
/-- Digits are some digits and the zeros behind them. -/
theorem exists_zeros (digits : List Char) : ∃ z, digits
    = (digits.reverse.dropWhile (· = '0')).reverse ++ List.replicate z '0' := by
  refine ⟨(digits.reverse.takeWhile (· = '0')).length, ?_⟩
  have hzeros : (digits.reverse.takeWhile (· = '0')).reverse
      = List.replicate (digits.reverse.takeWhile (· = '0')).length '0' := by
    refine List.eq_replicate_iff.2 ⟨List.length_reverse, fun c hc => ?_⟩
    simpa using List.all_eq_true.1 List.all_takeWhile c (List.mem_reverse.1 hc)
  rw [← hzeros, ← List.reverse_append, List.takeWhile_append_dropWhile, List.reverse_reverse]

omit hk in
/-- The text of a decimal with a point leaves out nothing but zeros at the end. -/
theorem positional_eq (digits places : Nat) : ∃ (whole fraction : List Char) (z : Nat),
    positional digits places = (if fraction.isEmpty then whole else whole ++ '.' :: fraction)
      ∧ allDigits whole = true ∧ (∀ c ∈ fraction, isAsciiDigit c = true)
      ∧ places = z + fraction.length ∧ digits = 10 ^ z * digitsValue (whole ++ fraction) := by
  let text := Nat.toDigits 10 digits
  let padded := List.replicate (places + 1 - text.length) '0' ++ text
  have hlength : padded.length = places + 1 - text.length + text.length := by simp [padded]
  have hmem : ∀ c ∈ padded, isAsciiDigit c = true := by
    intro c hc
    rcases List.mem_append.1 hc with hc | hc
    · rw [(List.mem_replicate.1 hc).2]
      rfl
    · exact isAsciiDigit_of_mem_toDigits hc
  have hvalue : digitsValue padded = digits := by
    rw [digitsValue_append, digitsValue_zeros, Nat.mul_zero, Nat.zero_add, digitsValue_toDigits]
  let whole := padded.take (padded.length - places)
  let rest := padded.drop (padded.length - places)
  have hsplit : whole ++ rest = padded := List.take_append_drop _ _
  have hwhole : whole.length = padded.length - places := by
    rw [List.length_take]
    omega
  have hrest : rest.length = places := by
    rw [List.length_drop]
    omega
  obtain ⟨z, hz⟩ := exists_zeros rest
  let fraction := (rest.reverse.dropWhile (· = '0')).reverse
  have hz : rest = fraction ++ List.replicate z '0' := hz
  refine ⟨whole, fraction, z, ?_, ?_, fun c hc => ?_, ?_, ?_⟩
  · rw [positional, List.isEmpty_reverse]
  · refine allDigits_iff.2 ⟨?_, fun c hc => hmem c (List.mem_of_mem_take hc)⟩
    rw [ne_eq, ← List.length_eq_zero_iff]
    omega
  · exact hmem c (List.mem_of_mem_drop (hz ▸ List.mem_append_left _ hc))
  · rw [← hrest, hz, List.length_append, List.length_replicate, Nat.add_comm]
  · rw [← hvalue, ← hsplit, hz, ← List.append_assoc, digitsValue_append, digitsValue_zeros,
      List.length_replicate, Nat.add_zero]

/-- A double with a fractional part is near no natural number. -/
theorem nearestMagnitude_natural_ne {x : Binary64} (hfin : x.magnitude < infinity)
    (hw : x.isWhole = false) {num den n : Nat} (hd : 0 < den) (hn : num = den * n) :
    nearestMagnitude num den ≠ x.magnitude := by
  intro hm
  have hone : nearestMagnitude n 1 = x.magnitude := by
    rw [← hm, hn]
    simpa using (nearestMagnitude_mul_left hk hd n 1).symm
  have hdvd := dvd_unitsOf_nearestMagnitude hk n
  rw [hone] at hdvd
  rw [(isWhole_iff hk).2 ⟨hfin, hdvd⟩] at hw
  cases hw

theorem chars_eq {x : Binary64} (hfin : x.magnitude < infinity) :
    x.chars = signChars x.negative ++ (if k ≤ (shortestCut x.magnitude).cut then
      Nat.toDigits 10 ((shortestCut x.magnitude).digits
        * 10 ^ ((shortestCut x.magnitude).cut - k))
      else positional (shortestCut x.magnitude).digits (k - (shortestCut x.magnitude).cut)) := by
  have hnan : x.isNaN = false := by
    simp only [isNaN, decide_eq_false_iff_not]
    omega
  have hfinite : x.isFinite = true := by simpa [isFinite] using hfin
  rw [chars, hnan, hfinite, hk]
  rfl

theorem spells_text {x : Binary64} (hfin : x.magnitude < infinity) (hw : x.isWhole = false) :
    (Number.float x).Spells x.text.toList := by
  rw [text, String.toList_ofList, chars_eq hk hfin]
  have hd := (readsBack_iff hk).1 (shortestCut_readsBack hk hfin)
  rw [Cut.value, Nat.pow_eq] at hd
  generalize shortestCut x.magnitude = d at hd
  have hcut : ¬ k ≤ d.cut := fun hle => by
    obtain ⟨more, hmore⟩ := Nat.exists_eq_add_of_le hle
    refine nearestMagnitude_natural_ne hk hfin hw (n := d.digits * 10 ^ more)
      (Nat.pow_pos (by decide)) ?_ hd
    rw [hmore, Nat.pow_add]
    ring
  obtain ⟨places, hplaces⟩ := Nat.exists_eq_add_of_le (Nat.le_of_not_le hcut)
  have hround : nearestMagnitude d.digits (10 ^ places) = x.magnitude := by
    rw [hplaces, Nat.pow_add, Nat.mul_comm d.digits,
      nearestMagnitude_mul_left hk (Nat.pow_pos (by decide))] at hd
    exact hd
  rw [if_neg hcut, hplaces, Nat.add_sub_cancel_left]
  obtain ⟨whole, fraction, z, htext, hwhole, hfraction, hlen, hvalue⟩ :=
    positional_eq d.digits places
  have hten : 0 < 10 ^ z := Nat.pow_pos (by decide)
  have hne : fraction ≠ [] := by
    rintro rfl
    rw [List.length_nil, Nat.add_zero] at hlen
    subst hlen
    exact nearestMagnitude_natural_ne hk hfin hw hten hvalue hround
  have hdigits : allDigits fraction = true := allDigits_iff.2 ⟨hne, hfraction⟩
  have hround' : nearestMagnitude (digitsValue (whole ++ fraction)) (10 ^ fraction.length)
      = x.magnitude := by
    rw [hlen, Nat.pow_add, hvalue, nearestMagnitude_mul_left hk hten] at hround
    exact hround
  have hread : nearest x.negative (digitsValue (whole ++ fraction)) (10 ^ fraction.length) = x := by
    rw [nearest, hround', ofMagnitude_self]
  rw [htext, if_neg (by simpa using hne)]
  refine ⟨.point _ hwhole hdigits, ?_⟩
  exact Number.ofChars?_point _ hwhole hdigits hread (by simpa [isFinite] using hfin)

omit hk in
theorem isFinite_ofInt (v : Int64) : (ofInt v.toInt).isFinite = true := by
  have hlow := v.le_toInt
  have hhigh := v.toInt_lt
  have hfin : nearestMagnitude v.toInt.natAbs 1 < infinity :=
    nearestMagnitude_lt_infinity rfl (by omega)
  have hlt : infinity < Nat.pow 2 63 := by decide
  rw [isFinite, ofInt, nearest, ofMagnitude, decide_eq_true_eq]
  exact Nat.lt_of_le_of_lt (Nat.mod_le _ _) hfin

end Binary64

theorem Number.spells_float {x : Binary64} (h : x.isFinite = true) :
    (Number.float x).Spells (if x.isWhole then x.wholeText else x.text).toList := by
  have hfin : x.magnitude < Binary64.infinity := by simpa [Binary64.isFinite] using h
  by_cases hw : x.isWhole = true
  · rw [if_pos hw]
    exact Binary64.spells_wholeText rfl hw
  · rw [if_neg hw]
    exact Binary64.spells_text rfl hfin (by simpa using hw)

end SlashCommands
