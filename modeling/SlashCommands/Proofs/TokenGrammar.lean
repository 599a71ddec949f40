import Mathlib.Tactic.SplitIfs
import SlashCommands.Grammar.Declaration
import SlashCommands.Proofs.BlankText
import SlashCommands.Proofs.Checked

/-!
# The grammar of tokens

Which texts spell which tokens (`Token.Written`): the tokens one after the other, with blanks
between them, where every token may stand in front of what follows it (`Token.FitsBefore`). Reading
is the inverse of spelling (`Token.read_ok_iff`): no character is lost or made up, every spelling is
read, and no text spells two lists of tokens. A text that spells nothing is refused as a whole, with
the text itself in the fault (`Token.reads_exactly_written`).
-/

namespace SlashCommands

open Text

namespace Token

/-! ## Spelling -/

/-- Behind blanks, the text ends or a bracket opens. -/
def Opens (cs : List Char) : Prop :=
  ∃ gap rest, cs = gap ++ rest ∧ Blanks gap
    ∧ (rest = [] ∨ ∃ more, rest = '<' :: more ∨ rest = '[' :: more)

/-- Whether a token may be written in front of a text. -/
def FitsBefore (after : List Char) : Token → Prop
  | word text => text ≠ []
    ∧ (∀ c ∈ text, isBlank c = false ∧ c ≠ '<' ∧ c ≠ '>' ∧ c ≠ '[' ∧ c ≠ ']')
    ∧ ∀ c rest, after = c :: rest → isBlank c = true
  | required inner => ('[' ∉ inner ∧ ']' ∉ inner)
    ∧ (∀ pre gap post, inner = pre ++ '>' :: (gap ++ '<' :: post) → ¬ Blanks gap)
    ∧ Opens after
  | optional inner => '[' ∉ inner ∧ ']' ∉ inner

/-- The tokens in their order make up the text, with blanks before, between and behind them. -/
inductive Written : List Token → List Char → Prop
  | nil {gap : List Char} (hgap : Blanks gap) : Written [] gap
  | cons {gap after : List Char} {t : Token} {ts : List Token} (hgap : Blanks gap)
    (ht : t.FitsBefore after) (hts : Written ts after) :
    Written (t :: ts) (gap ++ (t.render ++ after))

theorem Written.blanks_append {ts : List Token} {gap cs : List Char} (hgap : Blanks gap)
    (h : Written ts cs) : Written ts (gap ++ cs) := by
  cases h with
  | nil hcs => exact .nil (hgap.append hcs)
  | cons hg ht hts =>
    rw [← List.append_assoc]
    exact .cons (hgap.append hg) ht hts

/-! ## Where an angle bracket closes -/

theorem closesAngle_iff {cs : List Char} : closesAngle cs = true ↔ Opens cs := by
  constructor
  · intro h
    refine ⟨cs.takeWhile isBlank, trimStart cs, List.takeWhile_append_dropWhile.symm,
      blanks_takeWhile cs, ?_⟩
    unfold closesAngle at h
    split at h
    · exact .inl ‹_›
    · rename_i c more hc
      rcases (by simpa using h : c = '<' ∨ c = '[') with rfl | rfl
      · exact .inr ⟨more, .inl hc⟩
      · exact .inr ⟨more, .inr hc⟩
  · rintro ⟨gap, rest, rfl, hgap, hrest⟩
    unfold closesAngle
    rw [trimStart_append hgap]
    rcases hrest with rfl | ⟨more, rfl | rfl⟩ <;> rfl

/-- In front of a text without square brackets and an angle that closes it, an angle opens only in
the text itself. -/
theorem opens_angle_iff {post after : List Char} (hpost : '[' ∉ post) :
    Opens (post ++ '>' :: after) ↔ ∃ gap rest, post = gap ++ '<' :: rest ∧ Blanks gap := by
  constructor
  · rintro ⟨gap, rest, heq, hgap, hrest⟩
    rcases List.append_eq_append_iff.1 heq with ⟨more, rfl, hmore⟩ | ⟨more, rfl, rfl⟩
    · -- the blanks cannot reach beyond the angle
      rcases more with _ | ⟨c, more⟩
      · rcases hrest with rfl | ⟨_, rfl | rfl⟩ <;> cases hmore
      · obtain ⟨rfl, -⟩ := List.cons.inj hmore
        have := hgap '>' (by simp)
        simp [isBlank] at this
    · rcases more with _ | ⟨c, more⟩
      · rcases hrest with h | ⟨_, h | h⟩ <;> cases h
      · refine ⟨gap, more, ?_, hgap⟩
        rcases hrest with h | ⟨_, h | h⟩
        · cases h
        · obtain ⟨rfl, -⟩ := List.cons.inj h
          rfl
        · obtain ⟨rfl, -⟩ := List.cons.inj h
          simp at hpost
  · rintro ⟨gap, rest, rfl, hgap⟩
    exact ⟨gap, '<' :: (rest ++ '>' :: after), by simp, hgap, .inr ⟨_, .inl rfl⟩⟩

theorem splitAngle_eq_some_iff {cs inner after : List Char} :
    splitAngle cs = some (inner, after) ↔ cs = inner ++ '>' :: after ∧ Opens after
      ∧ ∀ pre post, inner = pre ++ '>' :: post → ¬ Opens (post ++ '>' :: after) := by
  induction cs generalizing inner with
  | nil => simp [splitAngle]
  | cons c cs ih =>
    unfold splitAngle
    split_ifs with hc
    · obtain ⟨rfl, hcs⟩ := hc
      rw [closesAngle_iff] at hcs
      constructor
      · intro h
        cases h
        exact ⟨rfl, hcs, fun pre post h => by simp at h⟩
      · rintro ⟨heq, hafter, hinner⟩
        rcases inner with _ | ⟨d, inner⟩
        · cases heq
          rfl
        · obtain ⟨rfl, rfl⟩ := List.cons.inj heq
          exact absurd hcs (hinner [] inner rfl)
    · rw [Option.map_eq_some_iff]
      constructor
      · rintro ⟨⟨inner, rest⟩, hs, heq⟩
        cases heq
        obtain ⟨rfl, hafter, hinner⟩ := ih.1 hs
        refine ⟨rfl, hafter, fun pre post heq => ?_⟩
        rcases pre with _ | ⟨d, pre⟩
        · obtain ⟨rfl, rfl⟩ := List.cons.inj heq
          rw [closesAngle_iff] at hc
          exact fun ho => hc ⟨rfl, ho⟩
        · exact hinner pre post (List.cons.inj heq).2
      · rintro ⟨heq, hafter, hinner⟩
        rcases inner with _ | ⟨d, inner⟩
        · obtain ⟨rfl, rfl⟩ := List.cons.inj heq
          rw [closesAngle_iff] at hc
          exact absurd ⟨rfl, hafter⟩ hc
        · obtain ⟨rfl, rfl⟩ := List.cons.inj heq
          refine ⟨(inner, after), ih.2 ⟨rfl, hafter, fun pre post h => ?_⟩, rfl⟩
          exact hinner (c :: pre) post (by rw [h]; rfl)

/-- The first angle that closes is the end of the inside exactly if the inside and what follows are
those of a required token. -/
theorem splitAngle_iff_fitsBefore {cs inner after : List Char} (hi : '[' ∉ inner)
    (hi' : ']' ∉ inner) : splitAngle cs = some (inner, after)
      ↔ cs = inner ++ '>' :: after ∧ (required inner).FitsBefore after := by
  rw [splitAngle_eq_some_iff]
  refine and_congr_right fun _ => ?_
  constructor
  · rintro ⟨hafter, hinner⟩
    refine ⟨⟨hi, hi'⟩, fun pre gap post heq hgap => ?_, hafter⟩
    exact hinner pre (gap ++ '<' :: post) heq
      ⟨gap, '<' :: (post ++ '>' :: after), by simp, hgap, .inr ⟨_, .inl rfl⟩⟩
  · rintro ⟨-, hinner, hafter⟩
    refine ⟨hafter, fun pre post heq ho => ?_⟩
    have hpost : '[' ∉ post := fun h => hi (by simp [heq, h])
    obtain ⟨gap, rest, rfl, hgap⟩ := (opens_angle_iff hpost).1 ho
    exact hinner pre gap rest heq hgap

theorem splitFirst_eq_some_iff {mark : Char} {cs before after : List Char} :
    splitFirst mark cs = some (before, after) ↔ cs = before ++ mark :: after ∧ mark ∉ before := by
  induction cs generalizing before with
  | nil => simp [splitFirst]
  | cons c cs ih =>
    unfold splitFirst
    split_ifs with hc
    · subst hc
      rcases before with _ | ⟨d, before⟩
      · simp
      · constructor
        · intro h
          cases h
        · rintro ⟨heq, hn⟩
          obtain ⟨rfl, -⟩ := List.cons.inj heq
          simp at hn
    · rw [Option.map_eq_some_iff]
      constructor
      · rintro ⟨⟨before, rest⟩, hs, heq⟩
        cases heq
        obtain ⟨rfl, hn⟩ := ih.1 hs
        exact ⟨rfl, by simp [hn, Ne.symm hc]⟩
      · rintro ⟨heq, hn⟩
        rcases before with _ | ⟨d, before⟩
        · exact absurd (List.cons.inj heq).1 hc
        · obtain ⟨rfl, rfl⟩ := List.cons.inj heq
          exact ⟨(before, after), ih.2 ⟨rfl, fun h => hn (by simp [h])⟩, rfl⟩

/-! ## Reading -/

theorem read_cons_of_blank {c : Char} (cs : List Char) (hc : isBlank c = true) :
    read (c :: cs) = read cs := by
  rw [read, if_pos hc]

theorem read_blanks_append {gap : List Char} (hgap : Blanks gap) (cs : List Char) :
    read (gap ++ cs) = read cs := by
  induction gap with
  | nil => rfl
  | cons c gap ih =>
    rw [List.cons_append, read_cons_of_blank _ (hgap c (by simp))]
    exact ih fun d hd => hgap d (by simp [hd])

theorem read_required {inner after : List Char} (h : (required inner).FitsBefore after) :
    read ((required inner).render ++ after) = (read after).map (required inner :: ·) := by
  obtain ⟨hi, hi'⟩ := h.1
  have hs := (splitAngle_iff_fitsBefore hi hi').2 ⟨rfl, h⟩
  have hq : inner.any isSquare = false := by
    rw [List.any_eq_false]
    intro c hc
    have h1 : c ≠ '[' := fun h => hi (h ▸ hc)
    have h2 : c ≠ ']' := fun h => hi' (h ▸ hc)
    simp [isSquare, h1, h2]
  have hw : (required inner).render ++ after = '<' :: (inner ++ '>' :: after) := by simp [render]
  rw [hw, read, if_neg (by decide), if_pos rfl]
  split
  · rename_i hn
    rw [hs] at hn
    cases hn
  · rename_i sides hn
    rw [hs] at hn
    cases hn
    rw [hq]
    rfl

theorem read_optional {inner after : List Char} (h : (optional inner).FitsBefore after) :
    read ((optional inner).render ++ after) = (read after).map (optional inner :: ·) := by
  have hs : splitFirst ']' (inner ++ ']' :: after) = some (inner, after) :=
    splitFirst_eq_some_iff.2 ⟨rfl, h.2⟩
  have hw : (optional inner).render ++ after = '[' :: (inner ++ ']' :: after) := by simp [render]
  rw [hw, read, if_neg (by decide), if_neg (by decide), if_pos rfl]
  split
  · rename_i hn
    rw [hs] at hn
    cases hn
  · rename_i sides hn
    rw [hs] at hn
    cases hn
    rw [if_neg (by simpa using h.1)]

theorem read_word {text after : List Char} (h : (word text).FitsBefore after) :
    read ((word text).render ++ after) = (read after).map (word text :: ·) := by
  obtain ⟨hne, htext, hafter⟩ := h
  obtain ⟨c, text, rfl⟩ := List.exists_cons_of_ne_nil hne
  obtain ⟨hc, hlt, hgt, hsq, hsq'⟩ := htext c (by simp)
  have hall : ∀ d ∈ text, (!isBlank d) = true := fun d hd => by
    simp [(htext d (by simp [hd])).1]
  have hbr : (c :: text).any isBracket = false := by
    rw [List.any_eq_false]
    intro d hd
    obtain ⟨-, h1, h2, h3, h4⟩ := htext d hd
    simp [isBracket, h1, h2, h3, h4]
  have hstop : after.takeWhile (fun d => !isBlank d) = []
      ∧ after.dropWhile (fun d => !isBlank d) = after := by
    rcases after with _ | ⟨d, after⟩
    · simp
    · simp [hafter d after rfl]
  rw [render, List.cons_append, read, if_neg (by simp [hc]), if_neg hlt, if_neg hsq,
    List.takeWhile_append_of_pos hall, List.dropWhile_append_of_pos hall, hstop.1, hstop.2,
    List.append_nil]
  simp only [hbr, Bool.false_eq_true, if_false]

theorem read_render_append {t : Token} {after : List Char} (h : t.FitsBefore after) :
    read (t.render ++ after) = (read after).map (t :: ·) := by
  cases t with
  | word text => exact read_word h
  | required inner => exact read_required h
  | optional inner => exact read_optional h

theorem read_of_written {ts : List Token} {cs : List Char} (h : Written ts cs) :
    read cs = .ok ts := by
  induction h with
  | @nil gap hgap =>
    rw [← List.append_nil gap, read_blanks_append hgap, read]
  | cons hgap ht _ ih =>
    rw [read_blanks_append hgap, read_render_append ht, ih]
    rfl

/-- Up to the next blank, what has no bracket is a word. -/
theorem fitsBefore_firstWord {c : Char} {rest : List Char} (hc : ¬ isBlank c = true)
    (hbr : ¬ (c :: rest.takeWhile fun d => !isBlank d).any isBracket = true) :
    (word (c :: rest.takeWhile fun d => !isBlank d)).FitsBefore
      (rest.dropWhile fun d => !isBlank d) := by
  refine ⟨List.cons_ne_nil _ _, fun d hd => ?_, fun d more hd => ?_⟩
  · have hb : isBlank d = false := by
      rcases List.mem_cons.1 hd with rfl | hd
      · simpa using hc
      · simpa using List.all_eq_true.1 List.all_takeWhile d hd
    have hn : ¬ isBracket d = true := fun h => hbr (List.any_eq_true.2 ⟨d, hd, h⟩)
    simpa [hb, isBracket, and_assoc] using hn
  · have := List.head?_dropWhile_not (fun d => !isBlank d) rest
    simpa [hd] using this

theorem written_of_read {cs : List Char} {ts : List Token} (h : read cs = .ok ts) :
    Written ts cs := by
  fun_induction read cs generalizing ts with
  | case1 =>
    cases h
    exact .nil blanks_nil
  | case2 c rest hc ih =>
    have hb : Blanks [c] := by simpa [Blanks] using hc
    exact (ih h).blanks_append hb
  | case3 => cases h
  | case4 => cases h
  | case5 rest sides hs hq _ ih =>
    obtain ⟨ts, hts, rfl⟩ := Checked.map_ok_iff.1 h
    have hi : '[' ∉ sides.1 := fun h => hq (List.any_eq_true.2 ⟨_, h, rfl⟩)
    have hi' : ']' ∉ sides.1 := fun h => hq (List.any_eq_true.2 ⟨_, h, rfl⟩)
    obtain ⟨rfl, ht⟩ := (splitAngle_iff_fitsBefore hi hi').1 hs
    have := Written.cons blanks_nil ht (ih hts)
    simpa [render] using this
  | case6 => cases h
  | case7 => cases h
  | case8 rest sides hs hq _ _ ih =>
    obtain ⟨ts, hts, rfl⟩ := Checked.map_ok_iff.1 h
    obtain ⟨rfl, hn⟩ := splitFirst_eq_some_iff.1 hs
    have ht : (optional sides.1).FitsBefore sides.2 := ⟨by simpa using hq, hn⟩
    have := Written.cons blanks_nil ht (ih hts)
    simpa [render] using this
  | case9 => cases h
  | case10 c rest hc _ _ text hbr =>
    rename_i ih
    obtain ⟨ts, hts, rfl⟩ := Checked.map_ok_iff.1 h
    have := Written.cons blanks_nil (fitsBefore_firstWord hc hbr) (ih hts)
    simpa [render] using this

theorem read_ok_iff {cs : List Char} {ts : List Token} : read cs = .ok ts ↔ Written ts cs :=
  ⟨written_of_read, read_of_written⟩

end Token

namespace Declaration

theorem outline_of_read_error {raw : String} {reason : GrammarFault}
    (h : Token.read raw.toList = .error reason) : outline raw = .error (.grammar raw reason) := by
  rw [outline, h]
  rfl

theorem segments_of_outline_error {raw : String} {fault : Fault} (h : outline raw = .error fault) :
    segments raw = .error fault := by
  rw [segments, h]
  rfl

theorem parse_of_segments_error {raw : String} {fault : Fault} (h : segments raw = .error fault) :
    parse raw = .error fault := by
  rw [parse, h]
  rfl

end Declaration

/-- The tokens that are read are those that the text spells. A text that spells none is refused
with a fault of the grammar that carries the text, whatever was to be made of its tokens. -/
theorem Token.reads_exactly_written (raw : String) :
    (∀ ts, Token.read raw.toList = .ok ts ↔ Token.Written ts raw.toList)
      ∧ ((∃ ts, Token.Written ts raw.toList) ∨ ∃ reason,
        Token.read raw.toList = .error reason
          ∧ Declaration.outline raw = .error (.grammar raw reason)
          ∧ Declaration.segments raw = .error (.grammar raw reason)
          ∧ Declaration.parse raw = .error (.grammar raw reason)) := by
  refine ⟨fun ts => Token.read_ok_iff, ?_⟩
  rcases hr : Token.read raw.toList with reason | ts
  · have ho := Declaration.outline_of_read_error hr
    have hs := Declaration.segments_of_outline_error ho
    exact .inr ⟨reason, rfl, ho, hs, Declaration.parse_of_segments_error hs⟩
  · exact .inl ⟨ts, Token.written_of_read hr⟩

end SlashCommands
