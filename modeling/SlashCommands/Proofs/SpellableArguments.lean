import SlashCommands.Proofs.TermArguments
import SlashCommands.Proofs.TypedLiterals

/-!
# Arguments that their text determines

Options can give an argument literals that no declaration text could have given it: one choice
alone, a text with a bar, texts that are all numerals, a bound that is no number. An argument that
has none of those is `Argument.Spellable`. A spellable argument is one that some bracket declares
(`Argument.Spellable.exists_readFrom`), and whatever a bracket declares is spellable
(`Argument.ReadFrom.spellable`). So an argument of a sealed command is read back from its text if
and only if it is spellable (`Builder.sealed_reads_back_iff`).
-/

namespace SlashCommands

open Text Checked

/-! ## Lists of literals -/

theorem Text.infix_joined {t : List Char} : ∀ {texts : List (List Char)}, t ∈ texts →
    t <:+: joined texts
  | [u], h => by
    rw [List.mem_singleton.1 h, joined, List.intercalate_singleton]
  | u :: v :: texts, h => by
    rw [joined_cons_cons]
    rcases List.mem_cons.1 h with rfl | h
    · exact ⟨[], [' ', '|', ' '] ++ joined (v :: texts), by simp⟩
    · obtain ⟨pre, post, heq⟩ := infix_joined h
      exact ⟨u ++ [' ', '|', ' '] ++ pre, post, by simp [← heq]⟩

namespace Choice

/-- A choice that can be told from its text in a list of them. A double has to be finite, and a text
must neither be cut nor end its bracket. -/
def Listable (required : Bool) : Choice → Prop
  | integer _ => True
  | float x => x.isFinite = true
  | string text => Listed text.toList ∧ Token.Inside required text.toList

/-- The number that a choice is, if it is one. -/
def number : Choice → Number
  | integer v => .int v
  | float x => .float x
  | string _ => .int 0

variable {required : Bool} {c : Choice} {cs : List Choice}

theorem spells_number (h : c.Listable required) (hc : c.type ≠ .string) :
    c.number.Spells (Argument.choiceText c).toList := by
  cases c with
  | integer v => exact Number.spells_int v
  | float x => exact Number.spells_float h
  | string text => exact absurd rfl hc

/-- The text of a choice that can be told from it may stand in a list, within a bracket. -/
theorem Listable.text (h : c.Listable required) : Listed (Argument.choiceText c).toList
    ∧ Token.Inside required (Argument.choiceText c).toList := by
  by_cases hc : c.type = .string
  · cases c with
    | string text => exact h
    | integer v => cases hc
    | float x => cases hc
  · have hn := (spells_number h hc).numeral
    exact ⟨listed_of_numeral hn, .of_not_mem ⟨hn.not_mem (by decide), hn.not_mem (by decide)⟩
      (.inl (hn.not_mem (by decide)))⟩

theorem ofNumber_number (h : c.type = .integer) : ofNumber c.number = c := by
  cases c <;> simp_all [Choice.type, ofNumber, number]

theorem float_number (h : c.type = .float) : float c.number.toBinary64 = c := by
  cases c <;> simp_all [Choice.type, number, Number.toBinary64]

theorem string_choiceText (h : c.type = .string) :
    string (String.ofList (Argument.choiceText c).toList) = c := by
  cases c <;> simp_all [Choice.type, Argument.choiceText, Choice.text]

theorem choiceText_of_string (h : c.type = .string) : Argument.choiceText c = c.text := by
  cases c <;> simp_all [Choice.type, Argument.choiceText]

theorem isInteger_number : c.number.isInteger = true ↔ c.type ≠ .float := by
  cases c <;> simp [Choice.type, number, Number.isInteger]

theorem map_map_eq_self {β : Type} {f : β → Choice} {g : Choice → β}
    (h : ∀ c ∈ cs, f (g c) = c) : (cs.map g).map f = cs := by
  rw [List.map_map]
  exact (List.map_congr_left h).trans (List.map_id cs)

/-- Choices of one type are read as themselves, texts only if one of them is no numeral. -/
theorem infer_listable {type : ArgumentType} (hne : cs ≠ [])
    (h : ∀ c ∈ cs, c.Listable required) (ht : ∀ c ∈ cs, c.type = type)
    (hs : type = .string → ∃ c ∈ cs, Number.ofChars? c.text.toList = none) :
    infer (cs.map fun c => (Argument.choiceText c).toList) = (type, cs) := by
  obtain ⟨first, hfirst⟩ := List.exists_mem_of_ne_nil cs hne
  have hread (hn : type ≠ .string) :
      (cs.map fun c => (Argument.choiceText c).toList).mapM Number.ofChars?
        = some (cs.map number) :=
    mapM_spelled fun c hc => spells_number (h c hc) (ht c hc ▸ hn)
  have hcases : type = .integer ∨ type = .float ∨ type = .string := by
    rw [← ht first hfirst]
    cases first <;> simp [Choice.type]
  rcases hcases with rfl | rfl | rfl
  · have hall : (cs.map number).all Number.isInteger = true := by
      rw [List.all_map, List.all_eq_true]
      exact fun c hc => isInteger_number.2 (by simp [ht c hc])
    rw [infer_integers (hread (by decide)) hall]
    exact congrArg (Prod.mk _) (map_map_eq_self fun c hc => ofNumber_number (ht c hc))
  · have hall : ¬ (cs.map number).all Number.isInteger = true := fun hall =>
      isInteger_number.1 (List.all_eq_true.1 hall _ (List.mem_map_of_mem hfirst)) (ht first hfirst)
    rw [infer_floats (hread (by decide)) hall]
    exact congrArg (Prod.mk _) (map_map_eq_self fun c hc => float_number (ht c hc))
  · have hnone : (cs.map fun c => (Argument.choiceText c).toList).mapM Number.ofChars? = none := by
      obtain ⟨c, hc, hn⟩ := hs rfl
      exact mapM_eq_none_iff.2
        ⟨_, List.mem_map_of_mem hc, by rwa [choiceText_of_string (ht c hc)]⟩
    rw [infer_texts hnone]
    exact congrArg (Prod.mk _) (map_map_eq_self fun c hc => string_choiceText (ht c hc))

/-- What texts that may stand in a list are read as can be told from its own text. -/
theorem listable_of_infer {literals : List (List Char)}
    (h : ∀ cs ∈ literals, Listed cs ∧ Token.Inside required cs) (hc : c ∈ (infer literals).2) :
    c.Listable required := by
  rcases hl : literals.mapM Number.ofChars? with _ | numbers
  · rw [infer_texts hl] at hc
    obtain ⟨cs, hcs, rfl⟩ := List.mem_map.1 hc
    simpa [Listable] using h cs hcs
  · have hfin := (finite_of_mapM hl).2
    by_cases hint : numbers.all Number.isInteger = true
    · rw [infer_integers hl hint] at hc
      obtain ⟨n, hn, rfl⟩ := List.mem_map.1 hc
      cases n with
      | int v => trivial
      | float x => exact hfin _ hn
    · rw [infer_floats hl hint] at hc
      obtain ⟨n, hn, rfl⟩ := List.mem_map.1 hc
      exact hfin n hn

theorem textual_of_infer {literals : List (List Char)} (h : (infer literals).1 = .string) :
    ∃ c ∈ (infer literals).2, Number.ofChars? c.text.toList = none := by
  rcases hl : literals.mapM Number.ofChars? with _ | numbers
  · obtain ⟨cs, hcs, hn⟩ := mapM_eq_none_iff.1 hl
    rw [infer_texts hl]
    exact ⟨_, List.mem_map_of_mem hcs, by simpa [Choice.text] using hn⟩
  · by_cases hint : numbers.all Number.isInteger = true
    · rw [infer_integers hl hint] at h
      cases h
    · rw [infer_floats hl hint] at h
      cases h

end Choice

namespace Argument

/-- The argument without its documentation. -/
def bare (a : Argument) : Argument :=
  { a with description := placeholder, localizations := .empty }

/-- Nothing of the argument is lost or changed in its text. -/
structure Spellable (a : Argument) : Prop where
  finite : ∀ n, n ∈ a.min ∨ n ∈ a.max → n.toBinary64.isFinite = true
  several : a.choices ≠ [] → 2 ≤ a.choices.length
  listable : ∀ c ∈ a.choices, c.Listable a.required
  /-- Texts that are all numerals would be read as numbers. -/
  textual : a.choices ≠ [] → a.type = .string →
    ∃ c ∈ a.choices, Number.ofChars? c.text.toList = none

/-! ## What brackets declare -/

namespace Spellable

variable {a : Argument}

theorem bounds (h : a.Spellable) (ht : a.Typed) :
    (∀ n ∈ a.min, n.Bounds a.type) ∧ ∀ n ∈ a.max, n.Bounds a.type := by
  have hbounds : ∀ n : Number, (Choice.ofNumber n).type = a.type →
      n.toBinary64.isFinite = true → n.Bounds a.type := by
    intro n hn hfin
    cases n with
    | int v => exact hn.symm
    | float x => exact ⟨hn.symm, hfin⟩
  exact ⟨fun n hn => hbounds n (ht.min n hn) (h.finite n (.inl hn)),
    fun n hn => hbounds n (ht.max n hn) (h.finite n (.inr hn))⟩

theorem readFrom_choices (h : a.Spellable) (ht : a.Typed) (hc : a.choices ≠ []) :
    ∃ inside, a.bare.ReadFrom inside ∧ Token.Inside a.required inside := by
  obtain ⟨hauto, hbounds, hlength⟩ := ht.alone (by simpa [hasChoices] using hc)
  obtain ⟨hmin, hmax⟩ : a.min = none ∧ a.max = none := by simpa [hasBounds] using hbounds
  obtain ⟨hlo, hhi⟩ : a.minLength = none ∧ a.maxLength = none := by
    simpa [hasLength] using hlength
  have htext : ∀ t ∈ a.choices.map fun c => (choiceText c).toList,
      Listed t ∧ Token.Inside a.required t := by
    intro t ht
    obtain ⟨c, hmem, rfl⟩ := List.mem_map.1 ht
    exact (h.listable c hmem).text
  have hseveral : 2 ≤ (a.choices.map fun c => (choiceText c).toList).length := by
    simpa using h.several hc
  have hread := ReadFrom.choices a.name a.required hseveral fun t ht =>
    ⟨(htext t ht).1, infix_joined ht⟩
  rw [Choice.infer_listable hc h.listable ht.choices (h.textual hc)] at hread
  refine ⟨_, ?_, Token.inside_joined fun t ht => (htext t ht).2⟩
  simpa [bare, plain, hauto, hmin, hmax, hlo, hhi] using hread

/-- A spellable argument is one that some bracket of its kind declares. -/
theorem exists_readFrom (h : a.Spellable) (ht : a.Typed) :
    ∃ inside, a.bare.ReadFrom inside ∧ Token.Inside a.required inside := by
  by_cases hc : a.choices = []
  · refine ⟨[], ?_, .of_not_mem (by simp) (by simp)⟩
    obtain ⟨hmin, hmax⟩ := h.bounds ht
    by_cases hb : a.min.isSome ∨ a.max.isSome
    · have hlength : a.hasLength = false := by
        by_contra hl
        have hstring := ht.lengths (by simpa using hl)
        have hnumeric : a.type = .integer ∨ a.type = .float := by
          rcases hb with hb | hb
          · exact (hmin _ (Option.get_mem hb)).type_cases
          · exact (hmax _ (Option.get_mem hb)).type_cases
        simp [hstring] at hnumeric
      obtain ⟨hlo, hhi⟩ : a.minLength = none ∧ a.maxLength = none := by
        simpa [hasLength] using hlength
      simpa [bare, plain, hc, hlo, hhi] using
        ReadFrom.bounds a.name a.required a.autocomplete hmin hmax hb
    · obtain ⟨hmin, hmax⟩ : a.min = none ∧ a.max = none := by simpa using hb
      by_cases hl : a.minLength.isSome ∨ a.maxLength.isSome
      · have hstring := ht.lengths (by simpa [hasLength] using hl)
        simpa [bare, plain, hc, hmin, hmax, hstring] using
          ReadFrom.lengths a.name a.required a.autocomplete hl
      · obtain ⟨hlo, hhi⟩ : a.minLength = none ∧ a.maxLength = none := by simpa using hl
        simpa [bare, plain, hc, hmin, hmax, hlo, hhi] using
          ReadFrom.type a.name a.type a.required a.autocomplete
  · exact h.readFrom_choices ht hc

end Spellable

/-- What a bracket declares is spellable. -/
theorem ReadFrom.spellable {inside : List Char} {a : Argument} (h : a.ReadFrom inside)
    (hi : Token.Inside a.required inside) : a.Spellable := by
  cases h with
  | @choices name required literals h hl =>
    exact
      { finite := by simp [plain]
        several := fun _ => by simpa [Choice.length_infer] using h
        listable := fun c hc => Choice.listable_of_infer (fun cs hcs =>
          ⟨(hl cs hcs).1, hi.of_isInfix (hl cs hcs).2⟩) hc
        textual := fun _ ht => Choice.textual_of_infer ht }
  | bounds name required autocomplete hmin hmax h =>
    have hfinite : ∀ {type : ArgumentType} {n : Number}, n.Bounds type →
        n.toBinary64.isFinite = true := by
      intro type n hn
      cases n with
      | int v => exact Binary64.isFinite_ofInt v
      | float x => exact hn.2
    refine ⟨fun n hn => ?_, by simp [plain], by simp [plain], by simp [plain]⟩
    rcases hn with hn | hn
    · exact hfinite (hmin n hn)
    · exact hfinite (hmax n hn)
  | lengths name required autocomplete h =>
    exact ⟨by simp [plain], by simp [plain], by simp [plain], by simp [plain]⟩
  | type name type required autocomplete =>
    exact ⟨by simp [plain], by simp [plain], by simp [plain], by simp [plain]⟩

/-! ## Reading what is written -/

theorem bare_onArgument (w : Wording) (a : Argument) : (w.onArgument a).bare = a.bare :=
  rfl

theorem spellable_bare {a : Argument} : a.bare.Spellable ↔ a.Spellable :=
  ⟨fun h => ⟨h.finite, h.several, h.listable, h.textual⟩,
    fun h => ⟨h.finite, h.several, h.listable, h.textual⟩⟩

theorem Spellable.parseSingle_render {a : Argument} (h : a.Spellable) (ht : a.Typed)
    (hn : Named a.name) : Declaration.parseSingle a.render = .ok (.root, a.bare) := by
  obtain ⟨inside, hfrom, hi⟩ := h.exists_readFrom ht
  have hinner : Token.Inside a.required a.inner := hfrom.inside_inner hn hi
  have hread : Declaration.readArgument a.render (a.inner, a.required) = .ok a.bare :=
    hfrom.readArgument_inner hn a.render
  rw [Declaration.parseSingle_of_outline (Declaration.outline_bracket hinner (toList_render a)),
    hread]
  rfl

theorem spellable_of_parseSingle {raw : String} {path : Path} {a : Argument}
    (h : Declaration.parseSingle raw = .ok (path, a)) : a.Spellable := by
  obtain ⟨ws, b, ho, hread, -⟩ := Declaration.parseSingle_ok_iff.1 h
  have hone : [b].mapM (Declaration.readArgument raw) = .ok [a] := by simp [hread]
  obtain ⟨inside, hfrom, hi⟩ := Declaration.readFrom_of_outline ho hone a List.mem_cons_self
  exact hfrom.spellable hi

/-- What is written is read as an argument that differs in its documentation at most. -/
def ReadsBack (a : Argument) : Prop :=
  ∃ b, Declaration.parseSingle a.render = .ok (.root, b) ∧ b.bare = a.bare

theorem readsBack_iff {a : Argument} (ht : a.Typed) (hn : Named a.name) :
    a.ReadsBack ↔ a.Spellable := by
  constructor
  · rintro ⟨b, hb, hbare⟩
    rw [← spellable_bare, ← hbare, spellable_bare]
    exact spellable_of_parseSingle hb
  · exact fun h => ⟨a.bare, h.parseSingle_render ht hn, rfl⟩

theorem readsBack_lasting : Lasting fun a => a.ReadsBack ↔ a.Spellable where
  declared h a ha hc := readsBack_iff (typed_lasting.declared h a ha hc) (check_ok_iff.1 hc).1
  described h hc := readsBack_iff (typed_lasting.described h hc) (check_ok_iff.1 hc).1
  documented w a h := by
    rw [← spellable_bare, bare_onArgument, spellable_bare]
    exact h

end Argument

/-! ## Sealed commands -/

namespace Builder

variable {η κ : Type}

/-- Every argument of a sealed command, also one that options describe, is read back from its text
if and only if it is spellable. -/
theorem sealed_reads_back_iff {name description : String} {es : List (Edit κ)}
    {terminal : Draft.Terminal η} {s : Spec η κ}
    (h : (((new name description).edits es).finish terminal).2 = .ok s) :
    s.tree.Each fun a => a.ReadsBack ↔ a.Spellable :=
  sealed_each Argument.readsBack_lasting h

/-- An argument whose text says nothing of the choices that it is given. -/
def choiceOptions (text : String) (choices : List Choice) : ArgumentOptions where
  text := text
  description := none
  choices := some choices
  min := none
  max := none
  minLength := none
  maxLength := none
  autocomplete := none

/-- Two texts of which one is a numeral, and a whole double among others. -/
def gradeEdits : List (Edit Unit) :=
  [.argumentWith (choiceOptions "<mark>" [.string "1", .string "pass or fail"]),
    .argumentWith (choiceOptions "[weight: number]" [.float (.ofInt 2), .float (.ofInt 3)])]

theorem gradeEdits_sealed_reads_back :
    ∃ s, (((new "grade" "Grades").edits gradeEdits).finish (.action ())).2 = .ok s
      ∧ s.tree.arguments.map Argument.render = ["<mark: 1 | pass or fail>", "[weight: 2.0 | 3.0]"]
      ∧ ∀ a ∈ s.tree.arguments, a.ReadsBack := by
  have h : ((((new "grade" "Grades").edits gradeEdits).finish (.action ())).2.toOption.map
      fun s => s.tree.arguments) = some
        [{ Argument.plain "mark" .string true with
            choices := [.string "1", .string "pass or fail"] },
          { Argument.plain "weight" .float false with
            choices := [.float (.ofInt 2), .float (.ofInt 3)] }] := by
    decide +kernel
  obtain ⟨s, hs, harguments⟩ := Option.map_eq_some_iff.1 h
  rw [toOption_eq_some_iff] at hs
  have heach := (sealed_reads_back_iff hs).arguments
  refine ⟨s, hs, by rw [harguments]; decide +kernel, ?_⟩
  rw [harguments, List.forall_mem_cons, List.forall_mem_singleton] at heach ⊢
  obtain ⟨hmark, hweight⟩ := heach
  have htexts : ∀ c ∈ [Choice.string "1", .string "pass or fail"], c.Listable true := by
    rw [List.forall_mem_cons, List.forall_mem_singleton]
    exact ⟨⟨⟨by decide, tight_of_ends (by decide) (by decide), by decide⟩,
        .of_not_mem (by decide) (.inl (by decide))⟩,
      ⟨⟨by decide, tight_of_ends (by decide) (by decide), by decide⟩,
        .of_not_mem (by decide) (.inl (by decide))⟩⟩
  have hfloats : ∀ c ∈ [Choice.float (.ofInt 2), .float (.ofInt 3)], c.Listable false := by
    rw [List.forall_mem_cons, List.forall_mem_singleton]
    exact ⟨Binary64.isFinite_ofInt 2, Binary64.isFinite_ofInt 3⟩
  refine ⟨hmark.2 ?_, hweight.2 ?_⟩
  · exact ⟨by simp [Argument.plain], fun _ => by decide, htexts,
      fun _ _ => ⟨.string "pass or fail", by simp, by decide +kernel⟩⟩
  · exact ⟨by simp [Argument.plain], fun _ => by decide, hfloats,
      fun _ ht => absurd ht (by decide)⟩

/-- One choice alone is written like a type, and choices that are all numerals like numbers. -/
def tokenEdits : List (Edit Unit) :=
  [.argumentWith (choiceOptions "<q>" [.string "red"]),
    .argumentWith (choiceOptions "<n>" [.string "1", .string "2"])]

/-- Neither argument of the sealed command is read back. -/
theorem tokenEdits_not_read_back :
    ∃ s, (((new "pick" "Picks").edits tokenEdits).finish (.action ())).2 = .ok s
      ∧ s.tree.arguments.map Argument.render = ["<q: red>", "<n: 1 | 2>"]
      ∧ (Declaration.parseSingle "<q: red>").toOption = none
      ∧ Declaration.parseSingle "<n: 1 | 2>" = .ok (.root,
          { Argument.plain "n" .integer true with choices := [.integer 1, .integer 2] })
      ∧ ∀ a ∈ s.tree.arguments, ¬ a.ReadsBack := by
  have h : ((((new "pick" "Picks").edits tokenEdits).finish (.action ())).2.toOption.map
      fun s => s.tree.arguments) = some
        [{ Argument.plain "q" .string true with choices := [.string "red"] },
          { Argument.plain "n" .string true with choices := [.string "1", .string "2"] }] := by
    decide +kernel
  obtain ⟨s, hs, harguments⟩ := Option.map_eq_some_iff.1 h
  have hq : (Declaration.parseSingle "<q: red>").toOption = none := by decide +kernel
  have hn : Declaration.parseSingle "<n: 1 | 2>" = .ok (.root,
      { Argument.plain "n" .integer true with choices := [.integer 1, .integer 2] }) := by
    decide +kernel
  refine ⟨s, toOption_eq_some_iff.1 hs, by rw [harguments]; decide +kernel, hq, hn, ?_⟩
  rw [harguments, List.forall_mem_cons, List.forall_mem_singleton]
  constructor
  · rintro ⟨b, hb, -⟩
    have hread : (Declaration.parseSingle "<q: red>") = .ok (.root, b) := hb
    simp [hread, Except.toOption] at hq
  · rintro ⟨b, hb, hbare⟩
    have hread : Declaration.parseSingle "<n: 1 | 2>" = .ok (.root, b) := hb
    obtain rfl : b = _ := (Prod.mk.inj (Except.ok.inj (hread.symm.trans hn))).2
    exact absurd (congrArg Argument.type hbare) (by decide)

end Builder

end SlashCommands
