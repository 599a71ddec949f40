import SlashCommands.Proofs.TokenGrammar

/-!
# What stands inside brackets

A bracket may hold any text without square brackets, and if it is an angle one, without a `>` that
a `<` follows behind blanks (`Token.Inside`). Any part of such a text is one again
(`Token.Inside.of_isInfix`), and so are two of them with a mark between them
(`Token.Inside.append`). The characters of a name are neither blanks nor marks of the grammar
(`Named.plain`).
-/

namespace SlashCommands

open Text

/-! ## Names -/

/-- The characters that end a name or a bracket. -/
def endMarks : List Char := [':', '<', '>', '[', ']']

/-- The characters that mean something to the grammar. -/
def grammarMarks : List Char := '*' :: '|' :: endMarks

/-- Every blank character. -/
def blankCodes : List Nat :=
  [0x20, 0x85, 0xA0, 0x1680, 0x2028, 0x2029, 0x202F, 0x205F, 0x3000] ++ List.range' 9 5
    ++ List.range' 0x2000 11

theorem mem_blankCodes {c : Char} (h : isBlank c = true) : c.toNat ∈ blankCodes := by
  simp only [isBlank, Bool.or_eq_true, Bool.and_eq_true, decide_eq_true_eq, beq_iff_eq] at h
  simp only [blankCodes, List.mem_append, List.mem_range'_1, List.mem_cons, List.not_mem_nil,
    or_false]
  omega

theorem isNameChar_blankCodes : ∀ n ∈ blankCodes, Check.isNameChar (Char.ofNat n) = false := by
  decide +kernel

theorem isBlank_of_isNameChar {c : Char} (h : Check.isNameChar c = true) : isBlank c = false := by
  by_contra hb
  have hcode := isNameChar_blankCodes _ (mem_blankCodes (by simpa using hb))
  rw [Char.ofNat_toNat, h] at hcode
  cases hcode

theorem not_mem_grammarMarks {c : Char} (h : Check.isNameChar c = true) : c ∉ grammarMarks := by
  have hmarks : (grammarMarks.any Check.isNameChar) = false := by decide
  exact fun hc => List.any_eq_false.1 hmarks c hc h

theorem Named.isNameText {name : String} (h : Named name) :
    Check.isNameText name.toList = true := by
  have hname := h name
  rw [Check.slashName] at hname
  split_ifs at hname with htext
  simpa using htext

theorem Named.ne_nil {name : String} (h : Named name) : name.toList ≠ [] := by
  have htext := h.isNameText
  rintro hnil
  simp [hnil, Check.isNameText] at htext

theorem Named.isNameChar {name : String} (h : Named name) {c : Char} (hc : c ∈ name.toList) :
    Check.isNameChar c = true := by
  have htext := h.isNameText
  rw [Check.isNameText, Bool.and_eq_true, List.all_eq_true] at htext
  exact htext.2 c hc

theorem Named.plain {name : String} (h : Named name) :
    ∀ c ∈ name.toList, isBlank c = false ∧ c ∉ grammarMarks := fun _ hc =>
  ⟨isBlank_of_isNameChar (h.isNameChar hc), not_mem_grammarMarks (h.isNameChar hc)⟩

/-! ## Parts of a text -/

/-- What does not contain the mark between two texts is a part of one of them. -/
theorem infix_of_not_mem {α : Type} {p : List α} {c : α} (hc : c ∉ p) {cs ds : List α}
    (h : p <:+: cs ++ c :: ds) : p <:+: cs ∨ p <:+: ds := by
  induction cs with
  | nil =>
    rcases List.infix_cons_iff.1 h with hp | hi
    · rcases p with _ | ⟨d, p⟩
      · exact .inl List.nil_infix
      · obtain ⟨rfl, -⟩ := List.cons_prefix_cons.1 hp
        exact absurd List.mem_cons_self hc
    · exact .inr hi
  | cons d cs ih =>
    rcases List.infix_cons_iff.1 h with hp | hi
    · have hcs : d :: cs <+: d :: cs ++ c :: ds := List.prefix_append _ _
      -- the part either ends in front of the mark or would contain it
      rcases List.prefix_or_prefix_of_prefix hp hcs with hp' | hp'
      · exact .inl hp'.isInfix
      · obtain ⟨q, rfl⟩ := hp'
        have hq : q <+: c :: ds := (List.prefix_append_right_inj (d :: cs)).1 hp
        rcases q with _ | ⟨e, q⟩
        · exact .inl (by simp)
        · obtain ⟨rfl, -⟩ := List.cons_prefix_cons.1 hq
          exact absurd (by simp) hc
    · rcases ih hi with hi | hi
      · exact .inl (hi.trans (List.suffix_cons d cs).isInfix)
      · exact .inr hi

namespace Token

/-! ## Insides -/

/-- A text that may stand in a bracket. If it is an angle one, no `>` in the text closes it. -/
structure Inside (required : Bool) (cs : List Char) : Prop where
  noSquare : '[' ∉ cs ∧ ']' ∉ cs
  noClose : required = true → ∀ gap, Blanks gap → ¬ '>' :: (gap ++ ['<']) <:+: cs

/-- The bracket around a text. -/
def bracket (inner : List Char) (required : Bool) : Token :=
  if required then .required inner else .optional inner

theorem inside_of_fitsBefore {inner after : List Char} {required : Bool}
    (h : (bracket inner required).FitsBefore after) : Inside required inner := by
  cases required with
  | false => exact ⟨h, by simp⟩
  | true =>
    obtain ⟨hsquare, hclose, -⟩ := h
    refine ⟨hsquare, fun _ gap hgap hi => ?_⟩
    obtain ⟨pre, post, rfl⟩ := hi
    exact hclose pre gap post (by simp) hgap

namespace Inside

variable {required : Bool} {cs ds : List Char}

theorem fitsBefore {after : List Char} (h : Inside required cs) (ha : Opens after) :
    (bracket cs required).FitsBefore after := by
  cases required with
  | false => exact h.noSquare
  | true =>
    refine ⟨h.noSquare, fun pre gap post heq hgap => ?_, ha⟩
    exact h.noClose rfl gap hgap ⟨pre, post, by simp [heq]⟩

theorem of_isInfix (h : Inside required cs) (hi : ds <:+: cs) : Inside required ds where
  noSquare := ⟨fun hd => h.noSquare.1 (hi.mem hd), fun hd => h.noSquare.2 (hi.mem hd)⟩
  noClose := fun hr gap hgap hd => h.noClose hr gap hgap (hd.trans hi)

theorem append (hc : Inside required cs) (hd : Inside required ds) {c : Char}
    (hblank : isBlank c = false) (hmark : c ∉ ['<', '>', '[', ']']) :
    Inside required (cs ++ c :: ds) := by
  simp only [List.mem_cons, List.not_mem_nil, or_false, not_or] at hmark
  refine ⟨⟨?_, ?_⟩, fun hr gap hgap hi => ?_⟩
  · simp [hc.noSquare, hd.noSquare, Ne.symm hmark.2.2.1]
  · simp [hc.noSquare, hd.noSquare, Ne.symm hmark.2.2.2]
  · have hgap' : c ∉ gap := fun h => by simp [hgap c h] at hblank
    have hnot : c ∉ '>' :: (gap ++ ['<']) := by simp [hmark, hgap']
    rcases infix_of_not_mem hnot hi with hi | hi
    · exact hc.noClose hr gap hgap hi
    · exact hd.noClose hr gap hgap hi

theorem blanks_append {gap : List Char} (hgap : Blanks gap) (h : Inside required cs) :
    Inside required (gap ++ cs) where
  noSquare := by
    have hopen : '[' ∉ gap := hgap.not_mem (by decide)
    have hclose : ']' ∉ gap := hgap.not_mem (by decide)
    simp [h.noSquare, hopen, hclose]
  noClose := fun hr gap' hgap' hi => by
    induction gap with
    | nil => exact h.noClose hr gap' hgap' hi
    | cons c gap ih =>
      rcases List.infix_cons_iff.1 hi with hp | hi
      · have hangle : '>' ∉ c :: gap := hgap.not_mem (by decide)
        exact hangle ((List.cons_prefix_cons.1 hp).1 ▸ List.mem_cons_self)
      · exact ih (fun d hd => hgap d (List.mem_cons_of_mem _ hd)) hi

theorem cons_blank (h : Inside required cs) : Inside required (' ' :: cs) :=
  h.blanks_append blanks_space

theorem append_blank (h : Inside required cs) : Inside required (cs ++ [' ']) where
  noSquare := by simp [h.noSquare]
  noClose := fun hr gap hgap hi => by
    rcases List.infix_concat_iff.1 hi with hs | hi
    · obtain ⟨pre, heq⟩ := hs
      have hlast := congrArg List.getLast? heq
      rw [← List.cons_append, ← List.append_assoc, List.getLast?_concat,
        List.getLast?_concat] at hlast
      cases hlast
    · exact h.noClose hr gap hgap hi

/-- Only one of the two angles. -/
theorem of_not_mem (hs : '[' ∉ cs ∧ ']' ∉ cs) (h : '<' ∉ cs ∨ '>' ∉ cs) : Inside required cs where
  noSquare := hs
  noClose := fun _ gap _ hi => by
    rcases h with h | h
    · exact h (hi.mem (by simp))
    · exact h (hi.mem (by simp))

end Inside

end Token

end SlashCommands
