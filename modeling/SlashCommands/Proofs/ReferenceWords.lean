import SlashCommands.Proofs.BracketText
import SlashCommands.Proofs.ChoiceText
import SlashCommands.Proofs.SealedCommand

/-!
# References to what was declared

A reference is cut into words at blanks, and what no word may have counts as blank. So names written
one after the other, the last in brackets or not, are read one by one
(`Reference.words_of_written`), and they are read back exactly if words may have all their
characters (`Reference.words_eq_iff`). Names may have more: of the Devanagari and Thai scripts every
sign, of which words have the letters and digits only. All other names can be referred to
(`Builder.sealed_referable`).
-/

namespace SlashCommands

/-! ## Words between blanks -/

namespace Text

theorem words_append_blank {c : Char} (hc : isBlank c = true) (cs ds : List Char) :
    words (cs ++ c :: ds) = words cs ++ words ds := by
  unfold words
  rw [splitWhere_append_cut hc, List.filter_append]

theorem words_blanks_append (cs : List Char) :
    ∀ {gap : List Char}, Blanks gap → words (gap ++ cs) = words cs
  | [], _ => rfl
  | c :: gap, h => by
    obtain ⟨hc, hgap⟩ := List.forall_mem_cons.1 h
    rw [List.cons_append, ← words_blanks_append cs hgap]
    exact words_append_blank hc [] (gap ++ cs)

theorem words_append_blanks {cs gap : List Char} (h : Blanks gap) :
    words (cs ++ gap) = words cs := by
  cases gap with
  | nil => rw [List.append_nil]
  | cons c gap =>
    obtain ⟨hc, hgap⟩ := List.forall_mem_cons.1 h
    have hnil := words_blanks_append [] hgap
    rw [List.append_nil] at hnil
    rw [words_append_blank hc, hnil]
    exact List.append_nil _

theorem words_of_not_blank {cs : List Char} (hne : cs ≠ []) (h : ∀ c ∈ cs, isBlank c = false) :
    words cs = [cs] := by
  unfold words
  rw [splitWhere_eq_singleton h]
  simp [hne]

theorem flatten_splitWhere (cut : Char → Bool) :
    ∀ cs : List Char, (splitWhere cut cs).flatten = cs.filter fun c => !cut c
  | [] => rfl
  | c :: cs => by
    have ih := flatten_splitWhere cut cs
    by_cases hc : cut c = true
    · simp [splitWhere, hc, ih]
    · obtain ⟨piece, pieces, hp, hq⟩ := splitWhere_of_not_cut (by simpa using hc) cs
      rw [hp] at ih
      rw [hq]
      simp only [List.flatten_cons, List.cons_append] at ih ⊢
      simp [hc, ih]

/-- Nothing but the blanks is lost between the words. -/
theorem flatten_words (cs : List Char) : (words cs).flatten = cs.filter fun c => !isBlank c := by
  unfold words
  rw [List.flatten_filter_not_isEmpty, flatten_splitWhere]

end Text

/-! ## Characters of words and of names -/

open Text

theorem Named.not_mem {name : String} (h : Named name) {c : Char}
    (hc : Check.isNameChar c = false) : c ∉ name.toList := by
  intro hmem
  simp [h.isNameChar hmem] at hc

theorem Named.not_colon {name : String} (h : Named name) : ':' ∉ name.toList :=
  h.not_mem (by decide)

namespace Reference

theorem isKept_blankCodes : ∀ n ∈ blankCodes, isKept (Char.ofNat n) = false := by
  decide +kernel

theorem isBlank_of_isKept {c : Char} (h : isKept c = true) : isBlank c = false := by
  by_contra hb
  have hcode := isKept_blankCodes _ (mem_blankCodes (by simpa using hb))
  rw [Char.ofNat_toNat, h] at hcode
  cases hcode

/-- A character of names that words may not have is a sign of one of the two scripts. -/
theorem isIndicOrThai_of_not_isKept {c : Char} (h : Check.isNameChar c = true)
    (hk : isKept c = false) : isIndicOrThai c = true := by
  simp only [Check.isNameChar, isKept, isAlphanumeric, isAlphabetic, Bool.or_eq_true,
    Bool.or_eq_false_iff] at h hk
  obtain ⟨⟨⟨⟨hletter, -⟩, hnumber⟩, hminus⟩, hlow⟩ := hk
  simpa [hletter, hnumber, hminus, hlow] using h

/-- What becomes of a character before the text is cut into words. -/
def clean (c : Char) : Char :=
  if isKept c || isBlank c then c else ' '

theorem clean_of_isKept {c : Char} (h : isKept c = true) : clean c = c := by
  simp [clean, h]

theorem isBlank_clean (c : Char) : isBlank (clean c) = !isKept c := by
  unfold clean
  by_cases hk : isKept c = true
  · simp [hk, isBlank_of_isKept hk]
  · by_cases hb : isBlank c = true
    · simp [hk, hb]
    · simp only [hk, hb, Bool.or_self, Bool.false_eq_true, if_false]
      rfl

theorem words_eq (raw : String) :
    words raw = (Text.words ((dropAnnotations false raw.toList).map clean)).map String.ofList :=
  rfl

/-- Without a colon there is no annotation to drop. -/
theorem dropAnnotations_eq_self :
    ∀ {cs : List Char}, ':' ∉ cs → dropAnnotations false cs = cs
  | [], _ => rfl
  | c :: cs, h => by
    obtain ⟨hc, hcs⟩ := not_or.1 (List.mem_cons.not.1 h)
    unfold dropAnnotations
    rw [dropAnnotations_eq_self hcs]
    split_ifs with hmark hcolon
    · rfl
    · exact absurd (by simpa using hcolon) (Ne.symm hc)
    · rfl

theorem words_of_not_colon {raw : String} (h : ':' ∉ raw.toList) :
    words raw = (Text.words (raw.toList.map clean)).map String.ofList := by
  rw [words_eq, dropAnnotations_eq_self h]

/-- The words hold the characters that words may have, in their order. -/
theorem flatMap_words {raw : String} (h : ':' ∉ raw.toList) :
    (words raw).flatMap String.toList = raw.toList.filter isKept := by
  have hclean : ∀ cs : List Char,
      (cs.map clean).filter (fun c => !isBlank c) = cs.filter isKept := by
    intro cs
    induction cs with
    | nil => rfl
    | cons c cs ih =>
      rw [List.map_cons, List.filter_cons, isBlank_clean, Bool.not_not, List.filter_cons, ih]
      split_ifs with hk
      · rw [clean_of_isKept hk]
      · rfl
  rw [words_of_not_colon h, List.flatMap_map]
  simp only [String.toList_ofList]
  rw [List.flatMap_id', flatten_words, hclean]

theorem words_eq_singleton {name : String} (hn : Named name)
    (h : ∀ c ∈ name.toList, isKept c = true) : words name = [name] := by
  rw [words_of_not_colon hn.not_colon, List.map_congr_left fun c hc => clean_of_isKept (h c hc),
    List.map_id', words_of_not_blank hn.ne_nil fun c hc => isBlank_of_isKept (h c hc)]
  simp

/-! ## Names in a row -/

/-- How the last name of a reference is written: by itself or in brackets. -/
inductive Styled (name : String) : String → Prop
  | bare : Styled name name
  | bracket (required starred : Bool) :
    Styled name ((if required then "<" else "[") ++ (if starred then "*" else "") ++ name
      ++ if required then ">" else "]")

/-- Names from the top, with a blank between them. -/
inductive Written : List String → String → Prop
  | last {name text} (h : Styled name text) : Written [name] text
  | more {name names text} (h : Written names text) : Written (name :: names) (name ++ " " ++ text)

/-- What may stand around a name. -/
def bracketMarks : List Char := ['<', '>', '[', ']', '*']

theorem isBlank_clean_of_mark {c : Char} (h : c ∈ bracketMarks) : isBlank (clean c) = true := by
  have hmarks : bracketMarks.any isKept = false := by decide +kernel
  rw [isBlank_clean]
  simpa using List.any_eq_false.1 hmarks c h

theorem Styled.toList {name text : String} (h : Styled name text) :
    ∃ pre post, text.toList = pre ++ (name.toList ++ post)
      ∧ (∀ c ∈ pre, c ∈ bracketMarks) ∧ ∀ c ∈ post, c ∈ bracketMarks := by
  cases h with
  | bare => exact ⟨[], [], by simp, by simp, by simp⟩
  | bracket required starred =>
    refine ⟨(if required then '<' else '[') :: (if starred then ['*'] else []),
      [if required then '>' else ']'], ?_, ?_, ?_⟩
    all_goals cases required <;> cases starred <;> simp [bracketMarks]

theorem Styled.not_mem {name text : String} (h : Styled name text) (hn : Named name) {c : Char}
    (hc : Check.isNameChar c = false) (hm : c ∉ bracketMarks) : c ∉ text.toList := by
  obtain ⟨pre, post, htext, hpre, hpost⟩ := h.toList
  simp only [htext, List.mem_append, not_or]
  exact ⟨fun hmem => hm (hpre _ hmem), hn.not_mem hc, fun hmem => hm (hpost _ hmem)⟩

/-- Besides the characters of names there are blanks, brackets and stars only. -/
theorem Written.not_mem {names : List String} {text : String} (h : Written names text)
    (hn : ∀ n ∈ names, Named n) {c : Char} (hc : Check.isNameChar c = false)
    (hm : c ∉ bracketMarks) (hs : c ≠ ' ') : c ∉ text.toList := by
  induction h with
  | last h => exact h.not_mem (hn _ List.mem_cons_self) hc hm
  | more h ih =>
    obtain ⟨hname, hnames⟩ := List.forall_mem_cons.1 hn
    simp [hname.not_mem hc, hs, ih hnames]

theorem Styled.not_colon {name text : String} (h : Styled name text) (hn : Named name) :
    ':' ∉ text.toList :=
  h.not_mem hn (by decide) (by decide)

theorem Written.not_colon {names : List String} {text : String} (h : Written names text)
    (hn : ∀ n ∈ names, Named n) : ':' ∉ text.toList :=
  h.not_mem hn (by decide) (by decide) (by decide)

/-- Brackets and stars belong to no word. -/
theorem words_of_styled {name text : String} (h : Styled name text) (hn : Named name) :
    words text = words name := by
  obtain ⟨pre, post, htext, hpre, hpost⟩ := h.toList
  have hblank : ∀ cs : List Char, (∀ c ∈ cs, c ∈ bracketMarks) →
      Blanks (cs.map clean) := fun cs hcs =>
    List.forall_mem_map.2 fun c hc => isBlank_clean_of_mark (hcs c hc)
  rw [words_of_not_colon (h.not_colon hn), words_of_not_colon hn.not_colon, htext,
    List.map_append, List.map_append, words_blanks_append _ (hblank pre hpre),
    words_append_blanks (hblank post hpost)]

theorem words_of_written {names : List String} {text : String} (h : Written names text)
    (hn : ∀ n ∈ names, Named n) : words text = names.flatMap words := by
  induction h with
  | last h => simpa using words_of_styled h (hn _ List.mem_cons_self)
  | @more name names text h ih =>
    obtain ⟨hname, hnames⟩ := List.forall_mem_cons.1 hn
    have hblank : isBlank (clean ' ') = true := by decide +kernel
    rw [List.flatMap_cons, ← ih hnames, words_of_not_colon (h.more.not_colon hn),
      words_of_not_colon hname.not_colon, words_of_not_colon (h.not_colon hnames)]
    simp [words_append_blank hblank]

/-- Names are read back exactly if words may have all their characters. -/
theorem words_eq_iff {names : List String} {text : String} (h : Written names text)
    (hn : ∀ n ∈ names, Named n) :
    words text = names ↔ ∀ n ∈ names, ∀ c ∈ n.toList, isKept c = true := by
  rw [words_of_written h hn]
  constructor
  · intro hwords
    have hchars : (names.flatMap String.toList).filter isKept = names.flatMap String.toList := by
      calc (names.flatMap String.toList).filter isKept
          = names.flatMap fun n => n.toList.filter isKept := List.filter_flatMap ..
        _ = names.flatMap fun n => (words n).flatMap String.toList :=
            List.flatMap_congr fun n hmem => (flatMap_words (hn n hmem).not_colon).symm
        _ = (names.flatMap words).flatMap String.toList := List.flatMap_assoc.symm
        _ = names.flatMap String.toList := by rw [hwords]
    intro n hmem c hc
    exact List.filter_eq_self.1 hchars c (List.mem_flatMap.2 ⟨n, hmem, hc⟩)
  · intro hkept
    have heach : ∀ n ∈ names, words n = [n] := fun n hmem =>
      words_eq_singleton (hn n hmem) (hkept n hmem)
    rw [List.flatMap_congr heach, List.flatMap_singleton']

/-- No name has a dollar sign, so none is taken for the default key. -/
theorem isDefault_of_written {names : List String} {text : String} (h : Written names text)
    (hn : ∀ n ∈ names, Named n) : isDefault text = false := by
  have hdollar : '$' ∉ text.toList := h.not_mem hn (by decide) (by decide) (by decide)
  by_contra hd
  have hkey : trimmed text = defaultKey := by simpa [isDefault] using hd
  have hchars : trim text.toList = defaultKey.toList := by
    rw [← hkey, trimmed, String.toList_ofList]
  have hmem : '$' ∈ trim text.toList := by
    rw [hchars]
    decide
  exact hdollar ((trim_isInfix _).subset hmem)

end Reference

/-! ## What a tree declares -/

/-- What can be referred to in a tree, by its names from the top. -/
inductive Tree.Entity (t : Tree) : List String → Target → Prop
  | subgroup {g} (hg : .subgroup g ∈ t.children) : Entity t [g.name] (.subgroup g.name)
  | subcommand {s} (hs : .subcommand s ∈ t.children) :
    Entity t [s.name] (.subcommand (.ofSubcommand s.name))
  | nested {g s} (hg : .subgroup g ∈ t.children) (hs : s ∈ g.subcommands) :
    Entity t [g.name, s.name] (.subcommand (.nested g.name s.name))
  | argument {a} (ha : a ∈ t.arguments) : Entity t [a.name] (.argument .root a.name)
  | argumentOf {s a} (hs : .subcommand s ∈ t.children) (ha : a ∈ s.arguments) :
    Entity t [s.name, a.name] (.argument (.ofSubcommand s.name) a.name)
  | argumentOfNested {g s a} (hg : .subgroup g ∈ t.children) (hs : s ∈ g.subcommands)
    (ha : a ∈ s.arguments) :
    Entity t [g.name, s.name, a.name] (.argument (.nested g.name s.name) a.name)

namespace Tree

variable {t : Tree} {names : List String} {target : Target}

theorem Entity.named (h : t.Entity names target) (ht : t.Sound) : ∀ n ∈ names, Named n := by
  cases h with
  | subgroup hg => simpa using (ht.each _ hg).named
  | subcommand hs => simpa using (ht.each _ hs).named
  | nested hg hs =>
    have hgroup : Subgroup.Sound _ := ht.each _ hg
    simpa using ⟨hgroup.named, (hgroup.each _ hs).named⟩
  | argument ha => simpa using (ht.arguments.each _ ha).named
  | argumentOf hs ha =>
    have hsub : Subcommand.Sound _ := ht.each _ hs
    simpa using ⟨hsub.named, (hsub.arguments.each _ ha).named⟩
  | argumentOfNested hg hs ha =>
    have hgroup : Subgroup.Sound _ := ht.each _ hg
    have hsub := hgroup.each _ hs
    simpa using ⟨hgroup.named, hsub.named, (hsub.arguments.each _ ha).named⟩

theorem exists_argument? {s : Subcommand} {a : Argument} (ha : a ∈ s.arguments) :
    ∃ b, s.argument? a.name = some b :=
  Option.isSome_iff_exists.1 (List.find?_isSome.2 ⟨a, ha, by simp⟩)

/-- Its names lead to it. -/
theorem Entity.resolveWords (h : t.Entity names target) (ht : t.Sound) :
    Reference.resolveWords t names = some target := by
  unfold Reference.resolveWords
  cases h with
  | subgroup hg => simp [(subgroup?_eq_some_iff ht.distinct).2 ⟨hg, rfl⟩]
  | subcommand hs =>
    have hsub := (subcommand?_eq_some_iff ht.distinct).2 ⟨hs, rfl⟩
    simp [hsub, subgroup?_eq_none ht.distinct (Option.isSome_of_eq_some hsub)]
  | nested hg hs =>
    have hgroup : Subgroup.Sound _ := ht.each _ hg
    simp [(subgroup?_eq_some_iff ht.distinct).2 ⟨hg, rfl⟩,
      (Subgroup.subcommand?_eq_some_iff hgroup.distinct).2 ⟨hs, rfl⟩]
  | @argument a ha =>
    -- A command with arguments has no children that the name could be taken for.
    have hchildren : t.children = [] := ht.apart.resolve_left (List.ne_nil_of_mem ha)
    have hany : (t.arguments.any fun b => b.name == a.name) = true :=
      List.any_eq_true.2 ⟨a, ha, by simp⟩
    simp [subgroup?, subcommand?, hchildren, hany]
  | argumentOf hs ha =>
    have hsub := (subcommand?_eq_some_iff ht.distinct).2 ⟨hs, rfl⟩
    obtain ⟨b, hb⟩ := exists_argument? ha
    simp [hsub, subgroup?_eq_none ht.distinct (Option.isSome_of_eq_some hsub), hb]
  | argumentOfNested hg hs ha =>
    have hgroup : Subgroup.Sound _ := ht.each _ hg
    obtain ⟨b, hb⟩ := exists_argument? ha
    simp [nested?, (subgroup?_eq_some_iff ht.distinct).2 ⟨hg, rfl⟩,
      (Subgroup.subcommand?_eq_some_iff hgroup.distinct).2 ⟨hs, rfl⟩, hb]

end Tree

namespace Builder

variable {η κ : Type}

/-- Whatever a sealed command declares is read back from a reference to it, and found, exactly if
words may have all characters of its names; those they may not have are signs of two scripts. -/
theorem sealed_referable {name description : String} {es : List (Edit κ)}
    {terminal : Draft.Terminal η} {s : Spec η κ}
    (h : (((new name description).edits es).finish terminal).2 = .ok s)
    {names : List String} {target : Target} (he : s.tree.Entity names target) {text : String}
    (hw : Reference.Written names text) :
    (Reference.words text = names ↔ ∀ n ∈ names, ∀ c ∈ n.toList, Reference.isKept c = true)
      ∧ (Reference.words text = names → Reference.resolve s.tree text = .ok target)
      ∧ ∀ n ∈ names, ∀ c ∈ n.toList, Reference.isKept c = false → isIndicOrThai c = true := by
  have hsound := (Draft.finish_sound (edits_sound (new_sound name description) es
    (finish_ok_iff.1 h).1) (finish_ok_iff.1 h).2).tree
  have hnamed := he.named hsound
  refine ⟨Reference.words_eq_iff hw hnamed, fun hwords => ?_, fun n hmem c hc => ?_⟩
  · simp [Reference.resolve, Reference.isDefault_of_written hw hnamed, hwords,
      he.resolveWords hsound]
  · exact Reference.isIndicOrThai_of_not_isKept ((hnamed n hmem).isNameChar hc)

/-- An argument whose name has a virama in it. -/
def greetEdits : List (Edit Unit) :=
  [.argument "<नमस्ते>"]

theorem exists_sealed_greetEdits :
    ∃ s, (((new "ping" "Pings").edits greetEdits).finish (.action ())).2 = .ok s
      ∧ s.tree.Entity ["नमस्ते"] (.argument .root "नमस्ते") := by
  have h : ((((new "ping" "Pings").edits greetEdits).finish (.action ())).2.toOption.map fun s =>
      s.tree.arguments.map (·.name)) = some ["नमस्ते"] := by
    decide +kernel
  rcases hs : (((new "ping" "Pings").edits greetEdits).finish (.action ())).2 with fault | s
  · rw [hs] at h
    cases h
  · rw [hs] at h
    simp only [Except.toOption, Option.map_some, Option.some.injEq] at h
    obtain ⟨a, ha, hn⟩ := List.map_eq_singleton_iff.1 h
    exact ⟨s, rfl, hn ▸ .argument (by simp [ha])⟩

theorem greetEdits_sealed_referable :
    ∃ s, (((new "ping" "Pings").edits greetEdits).finish (.action ())).2 = .ok s
      ∧ (Reference.words "<नमस्ते>" = ["नमस्ते"] ↔
        ∀ n ∈ ["नमस्ते"], ∀ c ∈ n.toList, Reference.isKept c = true) := by
  obtain ⟨s, hs, he⟩ := exists_sealed_greetEdits
  have hw : Reference.Written ["नमस्ते"] "<नमस्ते>" := .last (.bracket true false)
  exact ⟨s, hs, (sealed_referable hs he hw).1⟩

/-- The name is declared, but no reference to it finds it. -/
theorem greetEdits_not_referable :
    (∃ s, (((new "ping" "Pings").edits greetEdits).finish (.action ())).2 = .ok s
      ∧ s.tree.Entity ["नमस्ते"] (.argument .root "नमस्ते"))
      ∧ Reference.words "नमस्ते" ≠ ["नमस्ते"] ∧ Reference.words "<नमस्ते>" ≠ ["नमस्ते"]
      ∧ (((new "ping" "Pings").edits
        (greetEdits ++ [.docs [("<नमस्ते>", .plain "Greeting")]])).finish (.action ())).2.isOk
          = false :=
  ⟨exists_sealed_greetEdits, by decide +kernel, by decide +kernel, by decide +kernel⟩

end Builder

end SlashCommands
