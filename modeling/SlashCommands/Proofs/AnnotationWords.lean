import SlashCommands.Proofs.DeclarationText
import SlashCommands.Proofs.ReferenceWords

/-!
# Declarations read as references

A declaration of one argument, read as a reference, gives the words of its path, the name of the
argument and then whatever words the annotation has behind its first comparison sign
(`Declaration.words_of_outline`): stars, brackets and the annotation up to there are dropped.
-/

namespace SlashCommands

open Text Checked

namespace Text

/-- Trimming takes nothing but blanks away. -/
theorem exists_blanks_trim (cs : List Char) :
    ∃ lead trail, Blanks lead ∧ Blanks trail ∧ cs = lead ++ (trim cs ++ trail) := by
  refine ⟨cs.takeWhile isBlank, ((trimStart cs).reverse.takeWhile isBlank).reverse,
    blanks_takeWhile cs, fun c hc => blanks_takeWhile _ c (List.mem_reverse.1 hc), ?_⟩
  rw [trim, trimEnd, ← List.reverse_append, List.takeWhile_append_dropWhile,
    List.reverse_reverse, trimStart, List.takeWhile_append_dropWhile]

end Text

namespace Token

theorem splitFirst_eq_none_iff {mark : Char} :
    ∀ {cs : List Char}, splitFirst mark cs = none ↔ mark ∉ cs
  | [] => by simp [splitFirst]
  | c :: cs => by
    rw [splitFirst, List.mem_cons, not_or, ← @splitFirst_eq_none_iff mark cs]
    by_cases hc : c = mark
    · simp [hc]
    · simp [hc, Ne.symm hc]

theorem Written.mem_of_mem {ts : List Token} {cs : List Char} (h : Written ts cs) :
    ∀ t ∈ ts, ∀ c ∈ t.render, c ∈ cs := by
  induction h with
  | nil => simp
  | cons _ _ _ ih =>
    intro t ht c hc
    rcases List.mem_cons.1 ht with rfl | ht
    · exact List.mem_append_right _ (List.mem_append_left _ hc)
    · exact List.mem_append_right _ (List.mem_append_right _ (ih t ht c hc))

/-- A bracket begins and ends with bracket characters. -/
theorem render_bracket (inner : List Char) (required : Bool) :
    ∃ opening closing, isBracket opening = true ∧ isBracket closing = true
      ∧ (bracket inner required).render = opening :: (inner ++ [closing]) := by
  cases required
  · exact ⟨'[', ']', rfl, rfl, rfl⟩
  · exact ⟨'<', '>', rfl, rfl, rfl⟩

end Token

namespace Reference

/-! ## Words of a text -/

/-- The words of a text that has no annotations. -/
def plainWords (cs : List Char) : List (List Char) :=
  Text.words (cs.map clean)

theorem words_eq_plainWords (raw : String) :
    words raw = (plainWords (dropAnnotations false raw.toList)).map String.ofList :=
  rfl

theorem plainWords_append_cons {c : Char} (hc : isKept c = false) (cs ds : List Char) :
    plainWords (cs ++ c :: ds) = plainWords cs ++ plainWords ds := by
  have hblank : isBlank (clean c) = true := by simp [isBlank_clean, hc]
  rw [plainWords, List.map_append, List.map_cons, words_append_blank hblank]
  rfl

theorem plainWords_cons {c : Char} (hc : isKept c = false) (ds : List Char) :
    plainWords (c :: ds) = plainWords ds :=
  plainWords_append_cons hc [] ds

theorem blanks_map_clean {gap : List Char} (h : ∀ c ∈ gap, isKept c = false) :
    Blanks (gap.map clean) :=
  List.forall_mem_map.2 fun c hc => by simp [isBlank_clean, h c hc]

theorem plainWords_append_left {gap : List Char} (h : ∀ c ∈ gap, isKept c = false)
    (cs : List Char) : plainWords (gap ++ cs) = plainWords cs := by
  rw [plainWords, List.map_append, words_blanks_append _ (blanks_map_clean h)]
  rfl

theorem plainWords_append_right {gap : List Char} (h : ∀ c ∈ gap, isKept c = false)
    (cs : List Char) : plainWords (cs ++ gap) = plainWords cs := by
  rw [plainWords, List.map_append, words_append_blanks (blanks_map_clean h)]
  rfl

theorem plainWords_of_isKept {cs : List Char} (hne : cs ≠ []) (h : ∀ c ∈ cs, isKept c = true) :
    plainWords cs = [cs] := by
  rw [plainWords, List.map_congr_left fun c hc => clean_of_isKept (h c hc), List.map_id',
    words_of_not_blank hne fun c hc => isBlank_of_isKept (h c hc)]

theorem isKept_of_blanks {gap : List Char} (h : Blanks gap) : ∀ c ∈ gap, isKept c = false := by
  intro c hc
  by_contra hk
  have hb := isBlank_of_isKept (by simpa using hk : isKept c = true)
  rw [h c hc] at hb
  cases hb

theorem plainWords_trim (cs : List Char) : plainWords (trim cs) = plainWords cs := by
  obtain ⟨lead, trail, hlead, htrail, hcs⟩ := exists_blanks_trim cs
  conv_rhs => rw [hcs]
  rw [plainWords_append_left (isKept_of_blanks hlead),
    plainWords_append_right (isKept_of_blanks htrail)]

/-! ## Dropping annotations -/

theorem isKept_of_isBracket {c : Char} (h : Token.isBracket c = true) : isKept c = false := by
  have hmarks : ['<', '>', '[', ']'].any isKept = false := by decide +kernel
  have hc : c ∈ ['<', '>', '[', ']'] := by simpa [Token.isBracket, or_assoc] using h
  simpa using List.any_eq_false.1 hmarks c hc

theorem isKept_colon : isKept ':' = false := by
  decide +kernel

theorem dropAnnotations_bracket {c : Char} (h : Token.isBracket c = true) (inside : Bool)
    (cs : List Char) : dropAnnotations inside (c :: cs) = c :: dropAnnotations false cs := by
  rw [dropAnnotations]
  exact if_pos h

/-- A bracket ends an annotation and keeps what is in front of it from what is behind it. -/
theorem dropAnnotations_append_bracket {c : Char} (h : Token.isBracket c = true) (ds : List Char) :
    ∀ (inside : Bool) (cs : List Char), dropAnnotations inside (cs ++ c :: ds)
      = dropAnnotations inside cs ++ c :: dropAnnotations false ds
  | inside, [] => dropAnnotations_bracket h inside ds
  | inside, d :: cs => by
    rw [List.cons_append, dropAnnotations, dropAnnotations,
      dropAnnotations_append_bracket h ds false cs, dropAnnotations_append_bracket h ds true cs]
    split_ifs <;> rfl

theorem dropAnnotations_append_of_not_colon (ds : List Char) :
    ∀ {cs : List Char}, ':' ∉ cs → dropAnnotations false (cs ++ ds) = cs ++ dropAnnotations false ds
  | [], _ => rfl
  | c :: cs, h => by
    obtain ⟨hc, hcs⟩ := not_or.1 (List.mem_cons.not.1 h)
    rw [List.cons_append, dropAnnotations, dropAnnotations_append_of_not_colon ds hcs]
    split_ifs with hmark hcolon
    · rfl
    · exact absurd (by simpa using hcolon) (Ne.symm hc)
    · rfl

/-- From a colon on nothing is left up to the next bracket. -/
theorem dropAnnotations_colon (cs : List Char) : dropAnnotations false (':' :: cs)
    = dropAnnotations false (cs.dropWhile fun c => !Token.isBracket c) := by
  have hinside : ∀ cs : List Char, dropAnnotations true cs
      = dropAnnotations false (cs.dropWhile fun c => !Token.isBracket c) := by
    intro cs
    induction cs with
    | nil => rfl
    | cons c cs ih =>
      by_cases hc : Token.isBracket c = true
      · rw [List.dropWhile_cons_of_neg (by simp [hc]), dropAnnotations_bracket hc,
          dropAnnotations_bracket hc]
      · rw [List.dropWhile_cons_of_pos (by simpa using hc), ← ih, dropAnnotations]
        simp [show ¬ (decide (c = '<') || decide (c = '>') || decide (c = '[')
          || decide (c = ']')) = true from hc]
  rw [dropAnnotations]
  exact hinside cs

end Reference

/-- The words of a path. -/
def Path.names (p : Path) : List String :=
  p.subgroup.toList ++ p.subcommand.toList

namespace Declaration

open Reference

/-! ## What stands in a bracket -/

/-- The text in front of the first colon. -/
def nameText (inner : List Char) : List Char :=
  match splitFirst ':' inner with
  | some (name, _) => name
  | none => inner

/-- The text behind the first colon. -/
def specText (inner : List Char) : List Char :=
  match splitFirst ':' inner with
  | some (_, spec) => spec
  | none => []

/-- An annotation from its first comparison sign on. -/
def compared (spec : List Char) : List Char :=
  spec.dropWhile fun c => !Token.isBracket c

/-- What a bracket is split into as it is read, up to blanks. -/
theorem splitSpec_trim (inner : List Char) :
    plainWords (splitSpec (trim inner)).1 = plainWords (nameText inner)
      ∧ (splitSpec (trim inner)).2 <:+: specText inner := by
  obtain ⟨lead, trail, hlead, htrail, hinner⟩ := exists_blanks_trim inner
  generalize trim inner = t at hinner
  subst hinner
  rcases ht : splitFirst ':' t with _ | ⟨name, spec⟩
  · have hcolon : splitFirst ':' (lead ++ (t ++ trail)) = none :=
      Token.splitFirst_eq_none_iff.2 (by
        simp [Token.splitFirst_eq_none_iff.1 ht, hlead.not_mem (c := ':') (by decide),
          htrail.not_mem (c := ':') (by decide)])
    simp only [splitSpec, ht, nameText, specText, hcolon]
    rw [plainWords_append_left (isKept_of_blanks hlead),
      plainWords_append_right (isKept_of_blanks htrail)]
    exact ⟨rfl, List.nil_infix⟩
  · obtain ⟨rfl, hname⟩ := Token.splitFirst_eq_some_iff.1 ht
    have hcolon : splitFirst ':' (lead ++ ((name ++ ':' :: spec) ++ trail))
        = some (lead ++ name, spec ++ trail) :=
      Token.splitFirst_eq_some_iff.2
        ⟨by simp, by simp [hname, hlead.not_mem (c := ':') (by decide)]⟩
    simp only [splitSpec, ht, nameText, specText, hcolon]
    rw [plainWords_trim, plainWords_append_left (isKept_of_blanks hlead)]
    exact ⟨rfl, (trim_isInfix spec).trans (List.prefix_append spec trail).isInfix⟩

theorem plainWords_splitStar (name : List Char) :
    plainWords (splitStar name).1 = plainWords name := by
  unfold splitStar
  split
  · rw [plainWords_trim, plainWords_cons (by decide +kernel)]
  · rfl

theorem name_of_readArgument {raw : String} {b : Bracketed} {a : Argument}
    (h : readArgument raw b = .ok a) :
    a.name.toList = (splitStar (splitSpec (trim b.1)).1).1 ∧ a.name.toList ≠ [] := by
  rw [readArgument] at h
  dsimp only at h
  split_ifs at h with hname
  · rw [readChoices] at h
    split_ifs at h
    cases h
    simpa [Argument.plain] using hname
  · split at h
    · rename_i found hf
      cases h
      rcases Bounds.eq_plain_of_read hf with ⟨lo, hi, rfl⟩ | ⟨type, lo, hi, rfl⟩ <;>
        simpa [Argument.plain, Argument.coerceLiterals] using hname
    · cases h
  · obtain ⟨found, hf, rfl⟩ := map_ok_iff.1 h
    rw [readType] at hf
    split at hf
    · cases hf
      simpa [Argument.plain] using hname
    · cases hf

/-- The words of a bracket: the name, and what the annotation has behind its first sign. -/
theorem plainWords_inner (inner : List Char) : plainWords (dropAnnotations false inner)
    = plainWords (nameText inner)
      ++ plainWords (dropAnnotations false (compared (specText inner))) := by
  rcases hs : splitFirst ':' inner with _ | ⟨name, spec⟩
  · rw [dropAnnotations_eq_self (Token.splitFirst_eq_none_iff.1 hs)]
    simp only [nameText, specText, hs]
    exact (List.append_nil _).symm
  · obtain ⟨rfl, hname⟩ := Token.splitFirst_eq_some_iff.1 hs
    simp only [nameText, specText, hs]
    rw [dropAnnotations_append_of_not_colon _ hname, dropAnnotations_colon, ← compared]
    rcases hc : compared spec with _ | ⟨c, rest⟩
    · rw [dropAnnotations, List.append_nil]
      exact (List.append_nil _).symm
    · have hbracket : Token.isBracket c = true := by
        have hnot := List.head?_dropWhile_not (fun c => !Token.isBracket c) spec
        rw [← compared, hc] at hnot
        simpa using hnot
      rw [dropAnnotations_bracket hbracket, plainWords_append_cons (isKept_of_isBracket hbracket),
        plainWords_cons (isKept_of_isBracket hbracket)]

/-! ## One argument behind its path -/

theorem parseSingle_ok_iff {raw : String} {path : Path} {a : Argument} :
    parseSingle raw = .ok (path, a) ↔ ∃ ws b, outline raw = .ok (ws, [b])
      ∧ readArgument raw b = .ok a ∧ path = pathOf ws := by
  have hone : ∀ {brackets : List Bracketed}, brackets.mapM (readArgument raw) = .ok [a] ↔
      ∃ b, brackets = [b] ∧ readArgument raw b = .ok a := by
    intro brackets
    constructor
    · intro h
      obtain ⟨b, rfl⟩ := List.length_eq_one_iff.1 (length_of_mapM_ok h).symm
      exact ⟨b, rfl, by simpa using h⟩
    · rintro ⟨b, rfl, hb⟩
      simp [hb]
  rw [parseSingle, bind_ok_iff]
  constructor
  · rintro ⟨d, hd, h⟩
    obtain ⟨ws, brackets, ho, has, hp⟩ := parse_ok_iff.1 hd
    split at h
    · rename_i b hb
      cases h
      obtain ⟨b, rfl, hb⟩ := hone.1 (hb ▸ has)
      exact ⟨ws, b, ho, hb, hp⟩
    · cases h
  · rintro ⟨ws, b, ho, hb, rfl⟩
    exact ⟨⟨pathOf ws, [a]⟩, parse_ok_iff.2 ⟨ws, [b], ho, hone.2 ⟨b, rfl, hb⟩, rfl⟩, rfl⟩

theorem plainWords_of_written {b : Bracketed} : ∀ {ws : List (List Char)} {cs : List Char},
    Token.Written (tokens ws [b]) cs → (∀ w ∈ ws, ∀ c ∈ w, isKept c = true) →
      plainWords (dropAnnotations false cs) = ws ++ plainWords (dropAnnotations false b.1)
  | [], cs, h, _ => by
    rcases h with _ | ⟨hgap, -, hts⟩
    rename_i gap after
    obtain ⟨hafter⟩ := hts
    obtain ⟨opening, closing, hopening, hclosing, hrender⟩ := Token.render_bracket b.1 b.2
    rw [hrender, dropAnnotations_append_of_not_colon _ (hgap.not_mem (by decide)),
      plainWords_append_left (isKept_of_blanks hgap), List.cons_append,
      dropAnnotations_bracket hopening, plainWords_cons (isKept_of_isBracket hopening),
      List.append_assoc, List.singleton_append, dropAnnotations_append_bracket hclosing,
      plainWords_append_cons (isKept_of_isBracket hclosing),
      dropAnnotations_eq_self (hafter.not_mem (by decide))]
    have hnone := plainWords_append_left (isKept_of_blanks hafter) []
    rw [List.append_nil] at hnone
    rw [hnone]
    exact List.append_nil _
  | w :: ws, cs, h, hk => by
    obtain ⟨hw, hws⟩ := List.forall_mem_cons.1 hk
    rcases h with _ | ⟨hgap, ht, hts⟩
    rename_i gap after
    have ih := plainWords_of_written hts hws
    obtain ⟨hne, -, hbehind⟩ := ht
    have hcolon : ':' ∉ w := fun hc => by
      have hkept := hw ':' hc
      rw [isKept_colon] at hkept
      cases hkept
    rw [Token.render, dropAnnotations_append_of_not_colon _ (hgap.not_mem (by decide)),
      plainWords_append_left (isKept_of_blanks hgap), dropAnnotations_append_of_not_colon _ hcolon]
    -- the blank behind the word keeps it apart
    rcases after with _ | ⟨c, rest⟩
    · rw [dropAnnotations] at ih
      rw [dropAnnotations, List.append_nil, plainWords_of_isKept hne hw, List.cons_append,
        ← ih]
      rfl
    · have hblank := hbehind c rest rfl
      have hgap' : Blanks [c] := by simpa [Blanks] using hblank
      have hdrop := dropAnnotations_append_of_not_colon rest (hgap'.not_mem (c := ':') (by decide))
      have hc := isKept_of_blanks hgap' c List.mem_cons_self
      rw [List.singleton_append, List.singleton_append] at hdrop
      rw [hdrop, plainWords_cons hc] at ih
      rw [hdrop, plainWords_append_cons hc, plainWords_of_isKept hne hw, ih]
      rfl

/-- The words of a declaration of one argument, read as a reference. -/
theorem words_of_outline {raw : String} {ws : List (List Char)} {b : Bracketed} {a : Argument}
    (ho : outline raw = .ok (ws, [b])) (hread : readArgument raw b = .ok a)
    (hk : ∀ n ∈ (pathOf ws).names ++ [a.name], ∀ c ∈ n.toList, isKept c = true) :
    words raw = (pathOf ws).names ++ a.name
      :: words (String.ofList (compared (specText b.1))) := by
  obtain ⟨hwritten, hle, -⟩ := outline_ok_iff.1 ho
  have hnames : (pathOf ws).names = ws.map String.ofList := toList_pathOf hle
  rw [hnames] at hk ⊢
  have hws : ∀ w ∈ ws, ∀ c ∈ w, isKept c = true := fun w hw c hc =>
    hk _ (List.mem_append_left _ (List.mem_map_of_mem hw)) c (by simpa using hc)
  obtain ⟨hname, hne⟩ := name_of_readArgument hread
  have hargument : plainWords (nameText b.1) = [a.name.toList] := by
    rw [← (splitSpec_trim b.1).1, ← plainWords_splitStar, ← hname]
    exact plainWords_of_isKept hne (hk _ (by simp))
  rw [words_eq_plainWords, words_eq_plainWords, String.toList_ofList,
    plainWords_of_written hwritten hws, plainWords_inner, hargument]
  simp

theorem isDefault_of_parseSingle {raw : String} {path : Path} {a : Argument}
    (h : parseSingle raw = .ok (path, a)) : isDefault raw = false := by
  obtain ⟨ws, b, ho, -, -⟩ := parseSingle_ok_iff.1 h
  obtain ⟨hwritten, -, -⟩ := outline_ok_iff.1 ho
  obtain ⟨opening, closing, hopening, -, hrender⟩ := Token.render_bracket b.1 b.2
  have hmem : opening ∈ raw.toList :=
    hwritten.mem_of_mem _ (List.mem_append_right _ List.mem_cons_self) _ (by simp [hrender])
  have hbracket : opening ∈ ['<', '>', '[', ']'] := by
    simpa [Token.isBracket, or_assoc] using hopening
  have hblank : isBlank opening = false := by
    have hmarks : ['<', '>', '[', ']'].any isBlank = false := by decide
    simpa using List.any_eq_false.1 hmarks opening hbracket
  by_contra hd
  have hkey : trimmed raw = defaultKey := by simpa [isDefault] using hd
  have hchars : trim raw.toList = defaultKey.toList := by
    rw [← hkey, trimmed, String.toList_ofList]
  obtain ⟨lead, trail, hlead, htrail, hraw⟩ := exists_blanks_trim raw.toList
  rw [hraw, hchars, List.mem_append, List.mem_append] at hmem
  have hnone : ['<', '>', '[', ']'].any defaultKey.toList.contains = false := by decide
  rcases hmem with hmem | hmem | hmem
  · exact hlead.not_mem hblank hmem
  · exact List.any_eq_false.1 hnone opening hbracket (List.contains_iff_mem.2 hmem)
  · exact htrail.not_mem hblank hmem

end Declaration

end SlashCommands
