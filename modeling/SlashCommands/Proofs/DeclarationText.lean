import SlashCommands.Proofs.ArgumentText
import SlashCommands.Proofs.SoundDraft

/-!
# Declarations that read back

A declaration is at most two words and then brackets (`Declaration.outline_ok_iff`). Written again,
it has the same words and, for each argument, a bracket of the same kind
(`Declaration.toList_render`), where each may stand in front of what follows it
(`Declaration.fitAlong_tokens`). So reading it again gives the path and the arguments that it was
read with (`Declaration.parse_render`).
-/

namespace SlashCommands

open Text Checked

namespace Token

/-! ## Tokens with one blank between them -/

/-- The tokens, each behind a blank. -/
def behind (ts : List Token) : List Char :=
  ts.flatMap fun t => ' ' :: t.render

/-- Each of the tokens may stand in front of the others behind it. -/
def FitAlong : List Token → Prop
  | [] => True
  | t :: ts => t.FitsBefore (behind ts) ∧ FitAlong ts

theorem intercalate_eq : ∀ (t : Token) (ts : List Token),
    " ".toList.intercalate ((t :: ts).map render) = t.render ++ behind ts
  | t, [] => by simp [behind]
  | t, u :: ts => by
    have ih := intercalate_eq u ts
    rw [List.map_cons] at ih
    rw [List.map_cons, List.map_cons, List.intercalate_cons_cons, ih]
    simp [behind]

theorem written_behind : ∀ {ts : List Token}, FitAlong ts → Written ts (behind ts)
  | [], _ => .nil blanks_nil
  | _ :: _, h => .cons blanks_space h.1 (written_behind h.2)

theorem written_intercalate {ts : List Token} (h : FitAlong ts) :
    Written ts (" ".toList.intercalate (ts.map render)) := by
  cases ts with
  | nil => exact .nil blanks_nil
  | cons t ts =>
    rw [intercalate_eq]
    exact .cons blanks_nil h.1 (written_behind h.2)

theorem Written.fits {ts : List Token} {cs : List Char} (h : Written ts cs) :
    ∀ t ∈ ts, ∃ after, t.FitsBefore after := by
  induction h with
  | nil => simp
  | cons _ ht _ ih => exact List.forall_mem_cons.2 ⟨⟨_, ht⟩, ih⟩

end Token

namespace Declaration

/-! ## Words and brackets -/

/-- The tokens of a declaration, its words in front. -/
def tokens (words : List (List Char)) (brackets : List Bracketed) : List Token :=
  words.map Token.word ++ brackets.map fun b => Token.bracket b.1 b.2

theorem arrange_bracket (words : List (List Char)) (before : List Bracketed) (b : Bracketed)
    (ts : List Token) :
    arrange words before (Token.bracket b.1 b.2 :: ts) = arrange words (before ++ [b]) ts := by
  rcases b with ⟨inner, _ | _⟩ <;> rfl

theorem arrange_brackets (words : List (List Char)) : ∀ brackets before : List Bracketed,
    arrange words before (tokens [] brackets) = .ok (words, before ++ brackets)
  | [], before => by simp [tokens, arrange]
  | b :: brackets, before => by
    have ih := arrange_brackets words brackets (before ++ [b])
    rw [List.append_assoc] at ih
    exact (arrange_bracket words before b _).trans ih

theorem arrange_tokens (brackets : List Bracketed) : ∀ us words : List (List Char),
    (words ++ us).length ≤ 2 →
      arrange words [] (tokens us brackets) = .ok (words ++ us, brackets)
  | [], words, _ => by simpa using arrange_brackets words brackets []
  | u :: us, words, h => by
    have ih := arrange_tokens brackets us (words ++ [u]) (by simpa using h)
    have hroom : words.length ≠ 2 := by
      simp at h
      omega
    rw [List.append_assoc, List.singleton_append] at ih
    simpa [tokens, arrange, hroom] using ih

theorem word_or_bracket (t : Token) :
    (∃ text, t = .word text) ∨ ∃ b : Bracketed, t = Token.bracket b.1 b.2 := by
  cases t with
  | word text => exact .inl ⟨text, rfl⟩
  | required inner => exact .inr ⟨(inner, true), rfl⟩
  | optional inner => exact .inr ⟨(inner, false), rfl⟩

/-- Words come first, and there are two of them at most. -/
theorem tokens_of_arrange {words' : List (List Char)} {brackets' : List Bracketed}
    {ts : List Token} : ∀ {words : List (List Char)} {before : List Bracketed}, words.length ≤ 2 →
      arrange words before ts = .ok (words', brackets') →
        ∃ us brackets, ts = tokens us brackets ∧ words' = words ++ us
          ∧ brackets' = before ++ brackets ∧ words'.length ≤ 2 ∧ (us = [] ∨ before = []) := by
  induction ts with
  | nil =>
    intro words before hw h
    cases h
    exact ⟨[], [], rfl, by simp, by simp, hw, .inl rfl⟩
  | cons t ts ih =>
    intro words before hw h
    rcases word_or_bracket t with ⟨text, rfl⟩ | ⟨b, rfl⟩
    · rw [arrange] at h
      split_ifs at h with hbefore hfull
      have hnil : before = [] := by simpa using hbefore
      have hroom : (words ++ [text]).length ≤ 2 := by
        simp
        omega
      obtain ⟨us, brackets, rfl, rfl, rfl, hle, -⟩ := ih hroom h
      exact ⟨text :: us, brackets, rfl, by simp, rfl, hle, .inr hnil⟩
    · rw [arrange_bracket] at h
      obtain ⟨us, brackets, rfl, rfl, rfl, hle, hus | hne⟩ := ih hw h
      · subst hus
        exact ⟨[], b :: brackets, rfl, rfl, by simp, hle, .inl rfl⟩
      · simp at hne

/-- A text is outlined as at most two words and then brackets, at least one of all. -/
theorem outline_ok_iff {raw : String} {words : List (List Char)} {brackets : List Bracketed} :
    outline raw = .ok (words, brackets) ↔ Token.Written (tokens words brackets) raw.toList
      ∧ words.length ≤ 2 ∧ tokens words brackets ≠ [] := by
  rw [outline]
  constructor
  · intro h
    split at h
    · rename_i parts hparts
      cases h
      obtain ⟨ts, hts, hparts⟩ := bind_ok_iff.1 hparts
      split_ifs at hparts with hempty
      obtain ⟨us, bs, rfl, rfl, rfl, hle, -⟩ := tokens_of_arrange (by simp) hparts
      exact ⟨Token.written_of_read hts, hle, by simpa using hempty⟩
    · cases h
  · rintro ⟨hw, hle, hne⟩
    rw [Token.read_of_written hw]
    have harr : arrange [] [] (tokens words brackets) = .ok (words, brackets) :=
      arrange_tokens brackets words [] hle
    simp [Except.bind, hne, harr]

/-! ## Paths and arguments -/

theorem foldl_arguments (d : Declaration) (as : List Argument) :
    (as.map Segment.argument).foldl extend d = { d with arguments := d.arguments ++ as } := by
  induction as generalizing d with
  | nil => simp
  | cons a as ih =>
    rw [List.map_cons, List.foldl_cons, ih]
    simp [extend]

/-- The path that the words lead to. -/
def pathOf : List (List Char) → Path
  | [group, sub] => .nested (String.ofList group) (String.ofList sub)
  | [sub] => .ofSubcommand (String.ofList sub)
  | _ => .root

theorem foldl_pathSegments (words : List (List Char)) :
    (pathSegments words).foldl extend ⟨.root, []⟩ = ⟨pathOf words, []⟩ := by
  rcases words with _ | ⟨_, _ | ⟨_, _ | _⟩⟩ <;> rfl

theorem toList_pathOf {words : List (List Char)} (h : words.length ≤ 2) :
    (pathOf words).subgroup.toList ++ (pathOf words).subcommand.toList
      = words.map String.ofList := by
  rcases words with _ | ⟨_, _ | ⟨_, _ | _⟩⟩
  · rfl
  · rfl
  · rfl
  · simp at h

theorem parse_ok_iff {raw : String} {d : Declaration} :
    parse raw = .ok d ↔ ∃ words brackets, outline raw = .ok (words, brackets)
      ∧ brackets.mapM (readArgument raw) = .ok d.arguments ∧ d.path = pathOf words := by
  have hfold : ∀ words as, (pathSegments words ++ as.map Segment.argument).foldl extend ⟨.root, []⟩
      = ⟨pathOf words, as⟩ := fun words as => by
    rw [List.foldl_append, foldl_pathSegments, foldl_arguments, List.nil_append]
  simp only [parse, segments, bind_ok_iff, pure_ok_iff]
  constructor
  · rintro ⟨_, ⟨⟨words, brackets⟩, ho, as, has, rfl⟩, rfl⟩
    rw [hfold]
    exact ⟨words, brackets, ho, has, rfl⟩
  · rintro ⟨words, brackets, ho, has, hp⟩
    refine ⟨_, ⟨(words, brackets), ho, d.arguments, has, rfl⟩, ?_⟩
    rw [hfold, ← hp]

/-- Each argument in its bracket. -/
def ownBrackets (d : Declaration) : List Bracketed :=
  d.arguments.map fun a => (a.inner, a.required)

theorem toList_render (d : Declaration) {words : List (List Char)} (h : words.length ≤ 2)
    (hp : d.path = pathOf words) :
    d.render.toList = " ".toList.intercalate ((tokens words d.ownBrackets).map Token.render) := by
  have hrender : (d.arguments.map Argument.render).map String.toList
      = (d.ownBrackets.map fun b => Token.bracket b.1 b.2).map Token.render := by
    simp [ownBrackets, Argument.toList_render, Function.comp_def]
  rw [render, String.toList_intercalate, hp, toList_pathOf h, List.map_append, hrender, tokens,
    List.map_append]
  simp [Token.render, Function.comp_def]

/-! ## Writing and reading again -/

theorem fitsBefore_behind {text after : List Char} (h : (Token.word text).FitsBefore after)
    (ts : List Token) : (Token.word text).FitsBefore (Token.behind ts) := by
  refine ⟨h.1, h.2.1, fun c rest hb => ?_⟩
  cases ts with
  | nil => cases hb
  | cons t ts =>
    cases hb
    decide

theorem opens_behind (brackets : List Bracketed) :
    Token.Opens (Token.behind (tokens [] brackets)) := by
  cases brackets with
  | nil => exact ⟨[], [], rfl, blanks_nil, .inl rfl⟩
  | cons b brackets =>
    refine ⟨[' '], _, rfl, blanks_space, .inr ?_⟩
    rcases b with ⟨inner, _ | _⟩
    · exact ⟨_, .inr rfl⟩
    · exact ⟨_, .inl rfl⟩

theorem fitAlong_brackets : ∀ {brackets : List Bracketed},
    (∀ b ∈ brackets, Token.Inside b.2 b.1) → Token.FitAlong (tokens [] brackets)
  | [], _ => trivial
  | b :: brackets, h => ⟨(h b List.mem_cons_self).fitsBefore (opens_behind brackets),
    fitAlong_brackets fun c hc => h c (List.mem_cons_of_mem _ hc)⟩

theorem fitAlong_tokens {brackets : List Bracketed} (hb : ∀ b ∈ brackets, Token.Inside b.2 b.1) :
    ∀ {words : List (List Char)}, (∀ w ∈ words, ∃ after, (Token.word w).FitsBefore after) →
      Token.FitAlong (tokens words brackets)
  | [], _ => fitAlong_brackets hb
  | w :: words, h => by
    obtain ⟨after, hw⟩ := h w List.mem_cons_self
    exact ⟨fitsBefore_behind hw _, fitAlong_tokens hb fun v hv => h v (List.mem_cons_of_mem _ hv)⟩

/-- An argument of a declaration that was read is one that some bracket of it declares. -/
theorem readFrom_of_outline {raw : String} {words : List (List Char)} {brackets : List Bracketed}
    {as : List Argument} (ho : outline raw = .ok (words, brackets))
    (has : brackets.mapM (readArgument raw) = .ok as) :
    ∀ a ∈ as, ∃ inside, a.ReadFrom inside ∧ Token.Inside a.required inside := by
  intro a ha
  obtain ⟨b, hb, hread⟩ := mem_of_mapM_ok has ha
  obtain ⟨hfrom, hrequired⟩ := readFrom_of_readArgument hread
  obtain ⟨hw, -, -⟩ := outline_ok_iff.1 ho
  have hmem : Token.bracket b.1 b.2 ∈ tokens words brackets :=
    List.mem_append_right _ (List.mem_map_of_mem hb)
  obtain ⟨after, hfits⟩ := hw.fits _ hmem
  exact ⟨b.1, hfrom, hrequired ▸ Token.inside_of_fitsBefore hfits⟩

/-- A declaration whose arguments pass their check is read back from what it is written as. -/
theorem parse_render {raw : String} {d : Declaration} (h : parse raw = .ok d)
    (hc : ∀ a ∈ d.arguments, a.check = .ok ()) : parse d.render = .ok d := by
  obtain ⟨words, brackets, ho, has, hp⟩ := parse_ok_iff.1 h
  obtain ⟨hw, hle, hne⟩ := outline_ok_iff.1 ho
  have hnamed : ∀ a ∈ d.arguments, Named a.name := fun a ha => (Argument.check_ok_iff.1 (hc a ha)).1
  have hfrom := readFrom_of_outline ho has
  have hinside : ∀ b ∈ d.ownBrackets, Token.Inside b.2 b.1 := by
    intro b hb
    obtain ⟨a, ha, rfl⟩ := List.mem_map.1 hb
    obtain ⟨inside, hread, hi⟩ := hfrom a ha
    exact hread.inside_inner (hnamed a ha) hi
  have hwords : ∀ w ∈ words, ∃ after, (Token.word w).FitsBefore after :=
    fun w hmem => hw.fits _ (List.mem_append_left _ (List.mem_map_of_mem hmem))
  have hwritten : Token.Written (tokens words d.ownBrackets) d.render.toList := by
    rw [toList_render d hle hp]
    exact Token.written_intercalate (fitAlong_tokens hinside hwords)
  have hne' : tokens words d.ownBrackets ≠ [] := by
    have hlength := length_of_mapM_ok has
    intro hnil
    simp only [tokens, ownBrackets, List.append_eq_nil_iff, List.map_eq_nil_iff] at hnil
    rw [hnil.2, List.length_nil] at hlength
    exact hne (by simp [tokens, hnil.1, List.length_eq_zero_iff.1 hlength.symm])
  have hback : d.ownBrackets.mapM (readArgument d.render) = .ok d.arguments :=
    mapM_map_ok fun a ha => by
      obtain ⟨inside, hread, -⟩ := hfrom a ha
      exact hread.readArgument_inner (hnamed a ha) d.render
  exact parse_ok_iff.2 ⟨words, d.ownBrackets, outline_ok_iff.2 ⟨hwritten, hle, hne'⟩, hback, hp⟩

/-- Bounds on whole numbers and on doubles, choices, autocompletion and a length. -/
def groupAdd : Declaration where
  path := .nested "group" "add"
  arguments := [
    { Argument.plain "count" .integer true with min := some (.int 1), max := some (.int 5) },
    { Argument.plain "rate" .float true with min := some (.float (.ofDecimal false 5 (-1) 1)) },
    { Argument.plain "colour" .string true with choices := [.string "red", .string "a > b"] },
    { Argument.plain "tag" .string false with autocomplete := true, maxLength := some 80 }]

theorem groupAdd_parse_render :
    parse "group add <count: 1 < x <= 5> <rate: x > 0.5> <colour: red|a > b> [* tag: l < 80]"
        = .ok groupAdd
      ∧ (∀ a ∈ groupAdd.arguments, a.check = .ok ()) ∧ parse groupAdd.render = .ok groupAdd := by
  have hparse : parse
      "group add <count: 1 < x <= 5> <rate: x > 0.5> <colour: red|a > b> [* tag: l < 80]"
        = .ok groupAdd := by
    decide +kernel
  have hcheck : ∀ a ∈ groupAdd.arguments, a.check = .ok () := by
    decide +kernel
  exact ⟨hparse, hcheck, parse_render hparse hcheck⟩

end Declaration

end SlashCommands
