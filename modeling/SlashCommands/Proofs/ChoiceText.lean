import SlashCommands.Argument
import SlashCommands.Proofs.NumeralText

/-!
# Choices that read back

A list of choices is cut at the bars and trimmed (`Text.map_trim_splitWhere`), so texts without a
bar and without blanks at their ends come out of it as they went in. The type that a list of
literals is given is the one that the choices as written are given again, with the same choices
(`Choice.infer_choiceText`): texts stay texts, and numbers are written such that they read back.
-/

namespace SlashCommands

open Text

/-! ## Cutting at bars -/

namespace Text

theorem splitWhere_eq_singleton {cut : Char → Bool} :
    ∀ {cs : List Char}, (∀ c ∈ cs, cut c = false) → splitWhere cut cs = [cs]
  | [], _ => rfl
  | c :: cs, h => by
    rw [splitWhere, h c List.mem_cons_self,
      splitWhere_eq_singleton fun d hd => h d (List.mem_cons_of_mem _ hd)]
    rfl

theorem splitWhere_ne_nil (cut : Char → Bool) (cs : List Char) : splitWhere cut cs ≠ [] := by
  cases cs with
  | nil => simp [splitWhere]
  | cons c cs =>
    rw [splitWhere]
    split_ifs
    · simp
    · split <;> simp

theorem splitWhere_of_not_cut {cut : Char → Bool} {c : Char} (hc : cut c = false)
    (cs : List Char) : ∃ piece pieces, splitWhere cut cs = piece :: pieces
      ∧ splitWhere cut (c :: cs) = (c :: piece) :: pieces := by
  obtain ⟨piece, pieces, hp⟩ := List.exists_cons_of_ne_nil (splitWhere_ne_nil cut cs)
  exact ⟨piece, pieces, hp, by simp [splitWhere, hc, hp]⟩

theorem splitWhere_append_cut {cut : Char → Bool} {c : Char} (hc : cut c = true)
    (rest : List Char) : ∀ cs : List Char,
      splitWhere cut (cs ++ c :: rest) = splitWhere cut cs ++ splitWhere cut rest
  | [] => by simp [splitWhere, hc]
  | d :: cs => by
    have ih := splitWhere_append_cut hc rest cs
    by_cases hd : cut d = true
    · simp [splitWhere, hd, ih]
    · obtain ⟨piece, pieces, hp, hq⟩ := splitWhere_of_not_cut (by simpa using hd) cs
      rw [hp] at ih
      simp [splitWhere, hd, ih, hp]

theorem splitWhere_append {cut : Char → Bool} {c : Char} (hc : cut c = true) (rest : List Char)
    {cs : List Char} (h : ∀ c ∈ cs, cut c = false) :
    splitWhere cut (cs ++ c :: rest) = cs :: splitWhere cut rest := by
  rw [splitWhere_append_cut hc, splitWhere_eq_singleton h]
  rfl

theorem trim_cons_blank (cs : List Char) : trim (' ' :: cs) = trim cs := by
  rw [trim, trim, trimStart, trimStart, List.dropWhile_cons_of_pos (by decide)]

theorem trim_append_blank {cs : List Char} (h : Tight cs) (hne : cs ≠ []) :
    trim (cs ++ [' ']) = cs := by
  have hstart : trimStart (cs ++ [' ']) = cs ++ [' '] :=
    trimStart_eq_self fun c hc => h.head c (by rwa [List.head?_append_of_ne_nil _ hne] at hc)
  have hend : trimEnd (cs ++ [' ']) = trimEnd cs := by
    rw [trimEnd, List.reverse_append, List.reverse_singleton, List.singleton_append,
      List.dropWhile_cons_of_pos (by decide), trimEnd]
  rw [trim, hstart, hend]
  simpa [trim, trimStart_eq_self h.head] using trim_of_tight h

theorem map_trim_splitWhere_cons {cut : Char → Bool} (hc : cut ' ' = false) (cs : List Char) :
    (splitWhere cut (' ' :: cs)).map trim = (splitWhere cut cs).map trim := by
  obtain ⟨piece, pieces, hp, hq⟩ := splitWhere_of_not_cut hc cs
  rw [hp, hq, List.map_cons, List.map_cons, trim_cons_blank]

theorem prefix_of_splitWhere {cut : Char → Bool} : ∀ {cs piece : List Char}
    {pieces : List (List Char)}, splitWhere cut cs = piece :: pieces → piece <+: cs
  | [], piece, pieces, h => by
    cases h
    exact List.prefix_rfl
  | c :: cs, piece, pieces, h => by
    by_cases hc : cut c = true
    · rw [splitWhere, if_pos hc] at h
      cases h
      exact List.nil_prefix
    · obtain ⟨first, rest, hp, hq⟩ := splitWhere_of_not_cut (by simpa using hc) cs
      rw [hq] at h
      cases h
      exact (List.prefix_cons_inj c).2 (prefix_of_splitWhere hp)

theorem infix_of_mem_splitWhere {cut : Char → Bool} : ∀ {cs piece : List Char},
    piece ∈ splitWhere cut cs → piece <:+: cs ∧ ∀ c ∈ piece, cut c = false
  | [], piece, h => by
    rw [splitWhere, List.mem_singleton] at h
    simp [h]
  | c :: cs, piece, h => by
    by_cases hc : cut c = true
    · rw [splitWhere, if_pos hc] at h
      rcases List.mem_cons.1 h with rfl | h
      · simp
      · obtain ⟨hi, hcut⟩ := infix_of_mem_splitWhere h
        exact ⟨hi.trans (List.suffix_cons c cs).isInfix, hcut⟩
    · have hc : cut c = false := by simpa using hc
      obtain ⟨first, rest, hp, hq⟩ := splitWhere_of_not_cut hc cs
      rw [hq] at h
      rcases List.mem_cons.1 h with rfl | h
      · obtain ⟨-, hcut⟩ := infix_of_mem_splitWhere (hp ▸ List.mem_cons_self : first ∈ _)
        exact ⟨((List.prefix_cons_inj c).2 (prefix_of_splitWhere hp)).isInfix,
          List.forall_mem_cons.2 ⟨hc, hcut⟩⟩
      · obtain ⟨hi, hcut⟩ := infix_of_mem_splitWhere (hp ▸ List.mem_cons_of_mem _ h : piece ∈ _)
        exact ⟨hi.trans (List.suffix_cons c cs).isInfix, hcut⟩

/-- A text that may stand between bars. -/
structure Listed (cs : List Char) : Prop where
  ne_nil : cs ≠ []
  tight : Tight cs
  noBar : '|' ∉ cs

theorem listed_of_mem {spec cs : List Char}
    (hmem : cs ∈ (splitWhere (· = '|') spec).map trim) (hne : cs ≠ []) :
    Listed cs ∧ cs <:+: spec := by
  obtain ⟨piece, hp, rfl⟩ := List.mem_map.1 hmem
  obtain ⟨hpart, hcut⟩ := infix_of_mem_splitWhere hp
  have hbar : '|' ∉ trim piece := fun hbar => by
    simpa using hcut '|' ((trim_isInfix piece).mem hbar)
  exact ⟨⟨hne, tight_trim piece, hbar⟩, (trim_isInfix piece).trans hpart⟩

theorem Listed.cut {cs : List Char} (h : Listed cs) : ∀ c ∈ cs, decide (c = '|') = false :=
  fun _ hc => decide_eq_false fun hb => h.noBar (hb ▸ hc)

/-- The texts with bars between them. -/
def joined (texts : List (List Char)) : List Char :=
  " | ".toList.intercalate texts

theorem joined_cons_cons (t u : List Char) (texts : List (List Char)) :
    joined (t :: u :: texts) = (t ++ [' ']) ++ '|' :: ' ' :: joined (u :: texts) := by
  rw [joined, List.intercalate_cons_cons, ← joined]
  simp

/-- What stands between the bars, once trimmed. -/
theorem map_trim_splitWhere : ∀ {texts : List (List Char)}, texts ≠ [] →
    (∀ t ∈ texts, Listed t) → (splitWhere (· = '|') (joined texts)).map trim = texts
  | [], hne, _ => absurd rfl hne
  | [t], _, h => by
    have ht := h t List.mem_cons_self
    rw [joined, List.intercalate_singleton, splitWhere_eq_singleton ht.cut]
    simp [trim_of_tight ht.tight]
  | t :: u :: texts, _, h => by
    have ht := h t List.mem_cons_self
    have hcut : ∀ c ∈ t ++ [' '], decide (c = '|') = false :=
      List.forall_mem_append.2 ⟨ht.cut, List.forall_mem_singleton.2 (by decide)⟩
    have ih := @map_trim_splitWhere (u :: texts) (by simp)
      fun v hv => h v (List.mem_cons_of_mem _ hv)
    rw [joined_cons_cons, splitWhere_append (by decide) _ hcut, List.map_cons,
      trim_append_blank ht.tight ht.ne_nil, map_trim_splitWhere_cons (by decide), ih]

theorem joined_ne_nil : ∀ {texts : List (List Char)}, texts ≠ [] → (∀ t ∈ texts, Listed t) →
    joined texts ≠ []
  | [], hne, _ => absurd rfl hne
  | [t], _, h => by
    rw [joined, List.intercalate_singleton]
    exact (h t List.mem_cons_self).ne_nil
  | t :: u :: texts, _, _ => by simp [joined_cons_cons]

theorem tight_joined : ∀ {texts : List (List Char)}, texts ≠ [] → (∀ t ∈ texts, Listed t) →
    Tight (joined texts)
  | [], hne, _ => absurd rfl hne
  | [t], _, h => by
    rw [joined, List.intercalate_singleton]
    exact (h t List.mem_cons_self).tight
  | t :: u :: texts, _, h => by
    have ht := h t List.mem_cons_self
    have hrest : ∀ v ∈ u :: texts, Listed v := fun v hv => h v (List.mem_cons_of_mem _ hv)
    have happend := ht.tight.append (tight_joined (by simp) hrest) ht.ne_nil
      (joined_ne_nil (by simp) hrest) [' ', '|', ' ']
    simpa [joined_cons_cons] using happend

theorem bar_mem_joined {texts : List (List Char)} (h : 2 ≤ texts.length) : '|' ∈ joined texts := by
  match texts, h with
  | t :: u :: texts, _ => simp [joined_cons_cons]

end Text

/-! ## Choices -/

namespace Choice

open Argument

theorem mapM_spelled {α : Type} {number : α → Number} {text : α → List Char} :
    ∀ {xs : List α}, (∀ x ∈ xs, (number x).Spells (text x)) →
      (xs.map text).mapM Number.ofChars? = some (xs.map number)
  | [], _ => rfl
  | x :: xs, h => by
    have ih := mapM_spelled fun y hy => h y (List.mem_cons_of_mem _ hy)
    rw [List.map_cons, List.mapM_cons, (h x List.mem_cons_self).reads, ih]
    rfl

theorem isFinite_of_ofChars? {cs : List Char} {n : Number} (h : Number.ofChars? cs = some n) :
    n.toBinary64.isFinite = true := by
  cases n with
  | int v => exact Binary64.isFinite_ofInt v
  | float x => exact Number.isFinite_of_ofChars? h

theorem finite_of_mapM : ∀ {literals : List (List Char)} {numbers : List Number},
    literals.mapM Number.ofChars? = some numbers →
      numbers.length = literals.length ∧ ∀ n ∈ numbers, n.toBinary64.isFinite = true
  | [], numbers, h => by
    cases h
    simp
  | cs :: literals, numbers, h => by
    simp only [List.mapM_cons, Option.bind_eq_bind, Option.bind_eq_some_iff, Option.pure_def,
      Option.some.injEq] at h
    obtain ⟨n, hn, ns, hns, rfl⟩ := h
    obtain ⟨hlength, hfin⟩ := finite_of_mapM hns
    exact ⟨by simp [hlength], List.forall_mem_cons.2 ⟨isFinite_of_ofChars? hn, hfin⟩⟩

section Infer

variable {literals : List (List Char)} {numbers : List Number}

theorem infer_texts (h : literals.mapM Number.ofChars? = none) :
    infer literals = (.string, literals.map fun cs => string (String.ofList cs)) := by
  simp only [infer, h]

theorem infer_integers (h : literals.mapM Number.ofChars? = some numbers)
    (hint : numbers.all Number.isInteger = true) :
    infer literals = (.integer, numbers.map ofNumber) := by
  simp only [infer, h, hint, if_true]

theorem infer_floats (h : literals.mapM Number.ofChars? = some numbers)
    (hint : ¬ numbers.all Number.isInteger = true) :
    infer literals = (.float, numbers.map fun n => float n.toBinary64) := by
  simp only [infer, h, if_neg hint]

end Infer

/-- How the number of a choice is written. -/
theorem spells_ofNumber {n : Number} (h : n.toBinary64.isFinite = true) :
    n.Spells (choiceText (ofNumber n)).toList := by
  cases n with
  | int v => exact Number.spells_int v
  | float x => exact Number.spells_float h

theorem spells_toBinary64 {n : Number} (h : n.toBinary64.isFinite = true) :
    (Number.float n.toBinary64).Spells (choiceText (float n.toBinary64)).toList :=
  Number.spells_float h

/-- The choices as written are read as the same choices. -/
theorem infer_choiceText (literals : List (List Char)) :
    infer ((infer literals).2.map fun c => (choiceText c).toList) = infer literals := by
  rcases hl : literals.mapM Number.ofChars? with _ | numbers
  · have htexts : (literals.map fun cs => string (String.ofList cs)).map
        (fun c => (choiceText c).toList) = literals := by
      simp [choiceText, text, Function.comp_def]
    rw [infer_texts hl, htexts, infer_texts hl]
  · have hfin := (finite_of_mapM hl).2
    by_cases hint : numbers.all Number.isInteger = true
    · have hread := @mapM_spelled _ id _ _ fun n hn => spells_ofNumber (hfin n hn)
      rw [List.map_id] at hread
      rw [infer_integers hl hint, List.map_map]
      exact infer_integers hread hint
    · have hread := mapM_spelled fun n hn => spells_toBinary64 (hfin n hn)
      have hfloat :
          ¬ (numbers.map fun n => Number.float n.toBinary64).all Number.isInteger = true := by
        intro hall
        obtain ⟨n, hn, -⟩ := List.all_eq_false.1 (Bool.eq_false_of_not_eq_true hint)
        have hn' := List.all_eq_true.1 hall _ (List.mem_map_of_mem hn)
        simp [Number.isInteger] at hn'
      rw [infer_floats hl hint, List.map_map]
      refine (infer_floats hread hfloat).trans ?_
      rw [List.map_map]
      rfl

theorem listed_of_numeral {cs : List Char} (h : Numeral cs) : Listed cs :=
  ⟨h.ne_nil, h.tight, h.not_mem (by decide)⟩

/-- A choice is written as it was read or as a numeral. -/
theorem text_of_infer {literals : List (List Char)} {c : Choice} (h : c ∈ (infer literals).2) :
    (choiceText c).toList ∈ literals ∨ Numeral (choiceText c).toList := by
  rcases hl : literals.mapM Number.ofChars? with _ | numbers
  · rw [infer_texts hl] at h
    obtain ⟨cs, hcs, rfl⟩ := List.mem_map.1 h
    exact .inl (by simpa [choiceText, text] using hcs)
  · have hfin := (finite_of_mapM hl).2
    by_cases hint : numbers.all Number.isInteger = true
    · rw [infer_integers hl hint] at h
      obtain ⟨n, hn, rfl⟩ := List.mem_map.1 h
      exact .inr (spells_ofNumber (hfin n hn)).numeral
    · rw [infer_floats hl hint] at h
      obtain ⟨n, hn, rfl⟩ := List.mem_map.1 h
      exact .inr (spells_toBinary64 (hfin n hn)).numeral

theorem length_infer (literals : List (List Char)) :
    (infer literals).2.length = literals.length := by
  rcases hl : literals.mapM Number.ofChars? with _ | numbers
  · simp [infer_texts hl]
  · have hlength := (finite_of_mapM hl).1
    by_cases hint : numbers.all Number.isInteger = true
    · simp [infer_integers hl hint, hlength]
    · simp [infer_floats hl hint, hlength]

end Choice

end SlashCommands
