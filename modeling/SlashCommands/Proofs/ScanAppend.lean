import Mathlib.Data.List.TakeWhile
import SlashCommands.Proofs.BoundScan
import SlashCommands.Proofs.BracketText

/-!
# Scanning a text part by part

A pattern does not look beyond a text that ends neither in a blank nor in a sign, if blanks and no
sign follow (`Bounds.variableFirst_append`, `Bounds.numeralFirst_append`). So such a text is scanned
on its own, and what is behind it on its own (`Bounds.scan_append`), and what the two leave over is
left over of the whole (`Bounds.uncovered_append`).
-/

namespace SlashCommands.Bounds

open Text Decimal

/-! ## Blanks -/

theorem plain_blankCodes : ∀ n ∈ blankCodes,
    isDecimalDigit (Char.ofNat n) = false ∧ isWordChar (Char.ofNat n) = false := by
  decide +kernel

theorem isDecimalDigit_of_isBlank {c : Char} (h : isBlank c = true) : isDecimalDigit c = false := by
  simpa using (plain_blankCodes _ (mem_blankCodes h)).1

theorem isWordChar_of_isBlank {c : Char} (h : isBlank c = true) : isWordChar c = false := by
  simpa using (plain_blankCodes _ (mem_blankCodes h)).2

theorem ne_of_isBlank {c d : Char} (h : isBlank c = true) (hd : isBlank d = false) : c ≠ d := by
  rintro rfl
  rw [h] at hd
  cases hd

theorem measureOf?_of_isBlank {c : Char} (h : isBlank c = true) : measureOf? c = none :=
  measureOf?_eq_none (ne_of_isBlank h (by decide)) (ne_of_isBlank h (by decide))

/-! ## Patterns in front of a rest -/

section Rest

/-- What may stand behind a term: nothing, or blanks and then no sign. -/
structure Apart (rest : List Char) : Prop where
  blank : ∀ c, rest.head? = some c → isBlank c = true
  unsigned : ∀ c, (trimStart rest).head? = some c → c ≠ '<' ∧ c ≠ '>'

/-- A text that ends neither in a blank nor in a sign. -/
def Closed (cs : List Char) : Prop :=
  ∀ c, cs.getLast? = some c → isBlank c = false ∧ c ≠ '<' ∧ c ≠ '>' ∧ c ≠ '='

theorem Closed.of_suffix {cs ds : List Char} (h : Closed cs) (hs : ds <:+ cs) : Closed ds := by
  obtain ⟨pre, rfl⟩ := hs
  intro c hc
  have hne : ds ≠ [] := by
    rintro rfl
    cases hc
  exact h c (by rwa [List.getLast?_append_of_ne_nil _ hne])

theorem trimStart_ne_nil {cs : List Char} (h : Closed cs) (hne : cs ≠ []) : trimStart cs ≠ [] := by
  intro hnil
  have hlast := (h _ (List.getLast?_eq_getLast_of_ne_nil hne)).1
  rw [List.dropWhile_eq_nil_iff.1 hnil _ (List.getLast_mem hne)] at hlast
  cases hlast

theorem trimStart_append_of_closed {cs : List Char} (h : Closed cs) (hne : cs ≠ [])
    (rest : List Char) : trimStart (cs ++ rest) = trimStart cs ++ rest := by
  have htrim := trimStart_ne_nil h hne
  rw [trimStart] at htrim
  rw [trimStart, List.dropWhile_append, if_neg (by simpa using htrim), trimStart]

variable {sign : Char} {side : Side} {rest : List Char}

theorem takeSign_of_apart (hr : Apart rest) (hs : sign = '<' ∨ sign = '>') :
    takeSign sign rest = none := by
  rw [takeSign]
  split
  · rename_i c more hc
    obtain ⟨hless, hmore⟩ := hr.unsigned c (by rw [hc]; rfl)
    rw [if_neg]
    rcases hs with rfl | rfl
    · exact hless
    · exact hmore
  · rfl

theorem takeSign_append {cs : List Char} (hc : Closed cs) (hne : cs ≠ []) (rest : List Char)
    (hs : sign = '<' ∨ sign = '>') :
    takeSign sign (cs ++ rest) = (takeSign sign cs).map (· ++ rest) := by
  obtain ⟨c, more, ht⟩ := List.exists_cons_of_ne_nil (trimStart_ne_nil hc hne)
  have hclosed : Closed (c :: more) := hc.of_suffix (ht ▸ List.dropWhile_suffix isBlank)
  rw [takeSign, takeSign, trimStart_append_of_closed hc hne, ht, List.cons_append]
  dsimp only
  split_ifs with hsign
  · subst hsign
    rcases more with _ | ⟨d, more⟩
    · obtain ⟨-, hless, hmore, -⟩ := hclosed c rfl
      rcases hs with rfl | rfl
      · exact absurd rfl hless
      · exact absurd rfl hmore
    · have hbehind : Closed (d :: more) := hclosed.of_suffix (List.suffix_cons c _)
      by_cases hd : d = '='
      · subst hd
        rcases more with _ | ⟨e, more⟩
        · exact absurd rfl (hbehind '=' rfl).2.2.2
        · exact congrArg some
            (trimStart_append_of_closed (hbehind.of_suffix (List.suffix_cons _ _)) (by simp) rest)
      · have htrim := trimStart_append_of_closed hbehind (by simp) rest
        simp only [List.cons_append] at htrim ⊢
        split
        · rename_i heq
          exact absurd (List.cons.inj heq).1 hd
        · split
          · rename_i heq
            exact absurd (List.cons.inj heq).1 hd
          · rw [htrim]
            rfl
  · rfl

theorem takeUnsigned_before {rest : List Char} (hr : EndsNumeral rest) (cs : List Char) :
    takeUnsigned (cs ++ rest) = (takeUnsigned cs).map fun n => (n.1, n.2 ++ rest) := by
  have hspan : ∀ ds : List Char, (ds ++ rest).takeWhile isDecimalDigit = ds.takeWhile isDecimalDigit
      ∧ (ds ++ rest).dropWhile isDecimalDigit = ds.dropWhile isDecimalDigit ++ rest := by
    intro ds
    induction ds with
    | nil => exact span_append (by simp) rest fun c hc => (hr c hc).1
    | cons c ds ih =>
      by_cases hc : isDecimalDigit c = true
      · simp [hc, ih]
      · simp [hc]
  simp only [takeUnsigned, (hspan cs).1, (hspan cs).2]
  split_ifs with hnone
  · rfl
  · rcases hrest : cs.dropWhile isDecimalDigit with _ | ⟨c, more⟩
    · rw [List.nil_append]
      split
      · exact absurd rfl (hr '.' rfl).2
      · rfl
    · rw [List.cons_append]
      by_cases hc : c = '.'
      · subst hc
        simp only [(hspan more).1, (hspan more).2]
        split_ifs <;> rfl
      · split
        · rename_i heq
          exact absurd (List.cons.inj heq).1 hc
        · split
          · rename_i heq
            exact absurd (List.cons.inj heq).1 hc
          · rfl

theorem Apart.endsNumeral (hr : Apart rest) : EndsNumeral rest := fun c hc =>
  ⟨isDecimalDigit_of_isBlank (hr.blank c hc), ne_of_isBlank (hr.blank c hc) (by decide)⟩

theorem takeNumeral_before (hr : Apart rest) (cs : List Char) :
    takeNumeral (cs ++ rest) = (takeNumeral cs).map fun n => (n.1, n.2 ++ rest) := by
  have hunsigned := takeUnsigned_before hr.endsNumeral
  rcases cs with _ | ⟨c, cs⟩
  · rcases rest with _ | ⟨c, rest⟩
    · rfl
    · have hblank := hr.blank c rfl
      exact takeNumeral_cons_eq_none (isDecimalDigit_of_isBlank hblank)
        (ne_of_isBlank hblank (by decide)) rest
  · by_cases hc : c = '-'
    · subst hc
      simp only [List.cons_append, takeNumeral, hunsigned cs, Option.map_map]
      rfl
    · have hcons := hunsigned (c :: cs)
      have hplain : ∀ ds, takeNumeral (c :: ds) = takeUnsigned (c :: ds) := fun ds => by
        simp [takeNumeral, hc]
      rw [List.cons_append] at hcons
      rw [List.cons_append, hplain, hplain, hcons]

theorem variableFirst_append {cs : List Char} (hc : Closed cs) (hne : cs ≠ []) (hr : Apart rest)
    (hs : sign = '<' ∨ sign = '>') (before : Option Char) :
    variableFirst sign side before (cs ++ rest)
      = (variableFirst sign side before cs).map fun f => (f.1, f.2 ++ rest) := by
  obtain ⟨c, cs, rfl⟩ := List.exists_cons_of_ne_nil hne
  have hsign : takeSign sign (cs ++ rest) = (takeSign sign cs).map (· ++ rest) := by
    rcases cs with _ | ⟨d, cs⟩
    · exact takeSign_of_apart hr hs
    · exact takeSign_append (hc.of_suffix (List.suffix_cons c _)) (by simp) rest hs
  simp only [List.cons_append, variableFirst, hsign]
  rcases measureOf? c with _ | m
  · rfl
  · by_cases hb : before.any isWordChar = true
    · simp [hb]
    · rcases takeSign sign cs with _ | after
      · simp [hb]
      · simp only [Option.map_some, Option.bind_eq_bind, Option.bind_some, hb,
          takeNumeral_before hr after]
        rcases takeNumeral after with _ | n <;> rfl

theorem numeralFirst_append {cs : List Char} (hc : Closed cs) (hr : Apart rest)
    (hs : sign = '<' ∨ sign = '>') :
    numeralFirst sign side (cs ++ rest)
      = (numeralFirst sign side cs).map fun f => (f.1, f.2 ++ rest) := by
  have hends : ∀ more : List Char, endsWord (more ++ rest) = endsWord more := by
    rintro (_ | ⟨d, more⟩)
    · rcases rest with _ | ⟨d, rest⟩
      · rfl
      · simp [endsWord, isWordChar_of_isBlank (hr.blank d rfl)]
    · rfl
  simp only [numeralFirst, takeNumeral_before hr cs]
  rcases hn : takeNumeral cs with _ | ⟨numeral, behind⟩
  · rfl
  have hsign : takeSign sign (behind ++ rest) = (takeSign sign behind).map (· ++ rest) := by
    rcases behind with _ | ⟨d, behind⟩
    · exact takeSign_of_apart hr hs
    · exact takeSign_append (hc.of_suffix (takeNumeral_suffix hn)) (by simp) rest hs
  simp only [Option.map_some, Option.bind_eq_bind, Option.bind_some, hsign]
  rcases takeSign sign behind with _ | after
  · rfl
  · rcases after with _ | ⟨v, more⟩
    · rcases rest with _ | ⟨d, rest⟩
      · rfl
      · simp [measureOf?_of_isBlank (hr.blank d rfl)]
    · rcases hv : measureOf? v with _ | m
      · simp [hv]
      · by_cases hw : endsWord more = true <;> simp [hv, hends, hw]

variable {p : Pattern}

/-- A pattern that does not look beyond a text is looked for in the text first, then behind it. -/
theorem scan_append : ∀ {cs : List Char},
    (∀ b ds, ds <:+ cs → ds ≠ [] → p b (ds ++ rest) = (p b ds).map fun f => (f.1, f.2 ++ rest)) →
    ∀ {skip : Nat} (before : Option Char), skip ≤ cs.length →
      scan p before skip (cs ++ rest)
        = ((scan p before skip cs).1 ++ (scan p (lastOf before cs) 0 rest).1,
          (scan p before skip cs).2 ++ (scan p (lastOf before cs) 0 rest).2)
  | [], _, skip, before, hle => by
    obtain rfl : skip = 0 := by simpa using hle
    simp [scan, lastOf]
  | c :: cs, h, skip, before, hle => by
    have ih := @scan_append cs fun b ds hd => h b ds (hd.trans (List.suffix_cons c cs))
    rcases skip with _ | skip
    · have hhead := h before (c :: cs) List.suffix_rfl (by simp)
      rw [List.cons_append] at hhead
      rw [List.cons_append, scan, scan, hhead]
      rcases p before (c :: cs) with _ | ⟨found, after⟩
      · dsimp only [Option.map_none]
        rw [ih (some c) (Nat.zero_le _)]
        rfl
      · have hlen : (cs ++ rest).length - (after ++ rest).length = cs.length - after.length := by
          simp only [List.length_append]
          omega
        dsimp only [Option.map_some]
        rw [hlen, ih (some c) (Nat.sub_le _ _)]
        rfl
    · rw [List.cons_append, scan, scan, ih (some c) (by simpa using hle)]
      rfl

end Rest

/-! ## What is left over -/

theorem mem_of_mem_uncovered {c : Char} : ∀ {spec : List Char} {masks : List (List Bool)},
    c ∈ uncovered spec masks → c ∈ spec
  | d :: spec, masks, h => by
    rw [uncovered] at h
    split_ifs at h
    · exact List.mem_cons_of_mem _ (mem_of_mem_uncovered h)
    · rcases List.mem_cons.1 h with rfl | h
      · exact List.mem_cons_self
      · exact List.mem_cons_of_mem _ (mem_of_mem_uncovered h)

/-- Masks that each are as long as the first text cover the two texts on their own. -/
theorem uncovered_append {ι : Type} (is : List ι) (spec : List Char) :
    ∀ {first : List Char} {front back : ι → List Bool},
      (∀ i ∈ is, (front i).length = first.length) →
      uncovered (first ++ spec) (is.map fun i => front i ++ back i)
        = uncovered first (is.map front) ++ uncovered spec (is.map back)
  | [], front, back, h => by
    have hback : (is.map fun i => front i ++ back i) = is.map back :=
      List.map_congr_left fun i hi => by rw [List.length_eq_zero_iff.1 (h i hi), List.nil_append]
    rw [hback]
    rfl
  | c :: first, front, back, h => by
    have htail : (is.map fun i => front i ++ back i).map List.tail
        = is.map fun i => (front i).tail ++ back i := by
      rw [List.map_map]
      refine List.map_congr_left fun i hi => ?_
      obtain ⟨b, bs, hbs⟩ := List.exists_cons_of_length_eq_add_one (h i hi)
      simp [hbs]
    have hhead : (is.map fun i => front i ++ back i).any (fun mask => mask.headD false)
        = (is.map front).any fun mask => mask.headD false := by
      rw [List.any_map, List.any_map, Bool.eq_iff_iff, List.any_eq_true, List.any_eq_true]
      refine exists_congr fun i => and_congr_right fun hi => ?_
      obtain ⟨b, bs, hbs⟩ := List.exists_cons_of_length_eq_add_one (h i hi)
      simp [hbs]
    have ih : uncovered (first ++ spec) (is.map fun i => (front i).tail ++ back i)
        = uncovered first (is.map fun i => (front i).tail) ++ uncovered spec (is.map back) :=
      uncovered_append is spec fun i hi => by simp [h i hi]
    rw [List.cons_append, uncovered, uncovered, htail, hhead, ih, List.map_map]
    split_ifs <;> rfl

theorem length_scan {p : Pattern} : ∀ (cs : List Char) (skip : Nat) (before : Option Char),
    (scan p before skip cs).2.length = cs.length
  | [], skip, before => by cases skip <;> simp [scan]
  | c :: cs, skip + 1, before => by simp [scan, length_scan cs]
  | c :: cs, 0, before => by
    rw [scan]
    split <;> simp [length_scan cs]

end SlashCommands.Bounds
