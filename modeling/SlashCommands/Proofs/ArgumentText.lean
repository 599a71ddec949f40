import SlashCommands.Proofs.BoundText
import SlashCommands.Proofs.BracketText
import SlashCommands.Proofs.ChoiceText

/-!
# Arguments that read back

What one bracket can declare (`Argument.ReadFrom`): choices, bounds, a length or nothing but a type.
Written again, such an argument fits into a bracket of the same kind
(`Argument.ReadFrom.inside_inner`), and reading what stands inside gives the argument itself
(`Argument.ReadFrom.readArgument_inner`), if its name is one that names may be.
-/

namespace SlashCommands

open Text Checked

namespace Argument

/-- The name, behind a star if there is autocompletion. -/
def starred (name : String) (autocomplete : Bool) : List Char :=
  (if autocomplete then ['*'] else []) ++ name.toList

/-- What stands inside the brackets of an argument as it is written. -/
def inner (a : Argument) : List Char :=
  starred a.name a.autocomplete ++ ':' :: ' ' :: a.renderSpec.toList

theorem toList_render (a : Argument) :
    a.render.toList = (Token.bracket a.inner a.required).render := by
  rcases hr : a.required <;> rcases ha : a.autocomplete <;>
    simp [render, inner, starred, Token.bracket, Token.render, hr, ha]

/-- What one bracket with this inside can declare; a star in front of choices is not heeded. -/
inductive ReadFrom (inside : List Char) : Argument → Prop
  | choices (name : String) (required : Bool) {literals : List (List Char)}
    (h : 2 ≤ literals.length) (hl : ∀ cs ∈ literals, Listed cs ∧ cs <:+: inside) :
    ReadFrom inside { plain name (Choice.infer literals).1 required with
      choices := (Choice.infer literals).2 }
  | bounds (name : String) (required autocomplete : Bool) {type : ArgumentType}
    {min max : Option Number} (hmin : ∀ n ∈ min, n.Bounds type) (hmax : ∀ n ∈ max, n.Bounds type)
    (h : min.isSome ∨ max.isSome) :
    ReadFrom inside { plain name type required with autocomplete, min, max }
  | lengths (name : String) (required autocomplete : Bool) {minLength maxLength : Option UInt16}
    (h : minLength.isSome ∨ maxLength.isSome) :
    ReadFrom inside { plain name .string required with autocomplete, minLength, maxLength }
  | type (name : String) (type : ArgumentType) (required autocomplete : Bool) :
    ReadFrom inside { plain name type required with autocomplete }

end Argument

namespace Declaration

theorem splitSpec_isInfix (cs : List Char) : (splitSpec cs).2 <:+: cs := by
  rw [splitSpec]
  split
  · rename_i name spec hs
    obtain ⟨rfl, -⟩ := Token.splitFirst_eq_some_iff.1 hs
    exact (trim_isInfix spec).trans ⟨name ++ [':'], [], by simp⟩
  · exact List.nil_infix

theorem readFrom_of_readChoices {raw name : String} {spec inside : List Char} {required : Bool}
    {a : Argument} (h : readChoices raw name spec required = .ok a) (hs : spec <:+: inside) :
    a.ReadFrom inside ∧ a.required = required := by
  rw [readChoices] at h
  split_ifs at h with hfew
  cases h
  simp only [Bool.or_eq_true, decide_eq_true_eq, List.any_eq_true, not_or, not_exists] at hfew
  refine ⟨.choices name required (Nat.le_of_not_lt hfew.1) fun cs hcs => ?_, rfl⟩
  obtain ⟨hlisted, hpart⟩ := listed_of_mem hcs fun hnil => hfew.2 cs ⟨hcs, by simp [hnil]⟩
  exact ⟨hlisted, hpart.trans hs⟩

theorem readFrom_of_bounds {name : String} {spec inside : List Char} {required : Bool}
    {a : Argument} (autocomplete : Bool) (h : Bounds.read name spec required = .ok a) :
    ({ a with autocomplete } : Argument).ReadFrom inside ∧ a.required = required := by
  rcases Bounds.declared_of_read h with ⟨lo, hi, hsome, rfl⟩ | ⟨type, lo, hi, hlo, hhi, hsome, rfl⟩
  · exact ⟨.lengths name required autocomplete hsome, rfl⟩
  · exact ⟨.bounds name required autocomplete hlo hhi hsome, rfl⟩

theorem readFrom_of_readType {name : String} {spec inside : List Char} {required : Bool}
    {a : Argument} (autocomplete : Bool) (h : readType name spec required = .ok a) :
    ({ a with autocomplete } : Argument).ReadFrom inside ∧ a.required = required := by
  rw [readType] at h
  split at h
  · rename_i type _
    cases h
    exact ⟨.type name type required autocomplete, rfl⟩
  · cases h

theorem readFrom_of_readArgument {raw : String} {b : Bracketed} {a : Argument}
    (h : readArgument raw b = .ok a) : a.ReadFrom b.1 ∧ a.required = b.2 := by
  have hspec := (splitSpec_isInfix (trim b.1)).trans (trim_isInfix b.1)
  rw [readArgument] at h
  dsimp only at h
  split_ifs at h
  · exact readFrom_of_readChoices h hspec
  · split at h
    · rename_i found hf
      cases h
      exact readFrom_of_bounds _ hf
    · cases h
  · obtain ⟨found, hf, rfl⟩ := map_ok_iff.1 h
    exact readFrom_of_readType _ hf

end Declaration

/-! ## What stands behind the colon -/

theorem Token.inside_joined {required : Bool} : ∀ {texts : List (List Char)},
    (∀ t ∈ texts, Inside required t) → Inside required (joined texts)
  | [], _ => ⟨by simp [joined], by simp [joined]⟩
  | [t], h => by
    rw [joined, List.intercalate_singleton]
    exact h t List.mem_cons_self
  | t :: u :: texts, h => by
    have hrest : Inside required (joined (u :: texts)) :=
      inside_joined fun v hv => h v (List.mem_cons_of_mem _ hv)
    rw [joined_cons_cons]
    exact (h t List.mem_cons_self).append_blank.append hrest.cons_blank (by decide) (by decide)

theorem ArgumentType.tight_keyword (type : ArgumentType) : Tight type.keyword.toList := by
  cases type with
  | channel scope => cases scope <;> exact tight_of_ends (by decide) (by decide)
  | _ => exact tight_of_ends (by decide) (by decide)

theorem ArgumentType.keyword_ne_nil (type : ArgumentType) : type.keyword.toList ≠ [] := by
  cases type with
  | channel scope => cases scope <;> decide
  | _ => decide

theorem ArgumentType.ofName?_keyword (type : ArgumentType) :
    ofName? type.keyword.toList = some type := by
  cases type with
  | channel scope => cases scope <;> decide +kernel
  | _ => decide

theorem ArgumentType.keyword_plain (type : ArgumentType) :
    ∀ c ∈ grammarMarks, c ∉ type.keyword.toList := by
  have hnone : (type.keyword.toList.any grammarMarks.contains) = false := by
    cases type with
    | channel scope => cases scope <;> decide
    | _ => decide
  intro c hmark hc
  exact List.any_eq_false.1 hnone c hc (List.contains_iff_mem.2 hmark)

/-- A list of choices, a bound expression or the name of a type. -/
inductive SpecText (inside : List Char) : List Char → Prop
  | choices {texts : List (List Char)} (h : 2 ≤ texts.length)
    (ht : ∀ t ∈ texts, Listed t ∧ (t <:+: inside ∨ Numeral t)) : SpecText inside (joined texts)
  | bounds (m : Bounds.Measure) {lo hi : Option (List Char)} (hlo : ∀ cs ∈ lo, Numeral cs)
    (hhi : ∀ cs ∈ hi, Numeral cs) (h : lo.isSome ∨ hi.isSome) :
    SpecText inside (Bounds.written m lo hi)
  | keyword (type : ArgumentType) : SpecText inside type.keyword.toList

namespace SpecText

variable {inside spec : List Char}

theorem ne_nil (h : SpecText inside spec) : spec ≠ [] := by
  cases h with
  | choices h ht =>
    exact joined_ne_nil (List.ne_nil_of_length_pos (by omega)) fun t hmem => (ht t hmem).1
  | bounds m hlo hhi h =>
    intro hnil
    rcases Bounds.sign_written (m := m) hlo hhi h with hs | hs <;> simp [hnil] at hs
  | keyword type => exact type.keyword_ne_nil

theorem tight (h : SpecText inside spec) : Tight spec := by
  cases h with
  | choices h ht =>
    exact tight_joined (List.ne_nil_of_length_pos (by omega)) fun t hmem => (ht t hmem).1
  | bounds m hlo hhi h => exact Bounds.tight_written hlo hhi
  | keyword type => exact type.tight_keyword

theorem inside_of {required : Bool} (h : SpecText inside spec) (hi : Token.Inside required inside) :
    Token.Inside required spec := by
  cases h with
  | choices _ ht =>
    refine Token.inside_joined fun t hmem => ?_
    rcases (ht t hmem).2 with hpart | hn
    · exact hi.of_isInfix hpart
    · exact .of_not_mem ⟨hn.not_mem (by decide), hn.not_mem (by decide)⟩
        (.inl (hn.not_mem (by decide)))
  | bounds m hlo hhi h =>
    refine .of_not_mem ⟨?_, ?_⟩ ((Bounds.sign_written hlo hhi h).symm.imp (·.2) (·.2))
    · exact Bounds.not_mem_written hlo hhi (by decide) (by decide) (by decide)
    · exact Bounds.not_mem_written hlo hhi (by decide) (by decide) (by decide)
  | keyword type =>
    have hplain := type.keyword_plain
    exact .of_not_mem ⟨hplain _ (by decide), hplain _ (by decide)⟩ (.inl (hplain _ (by decide)))

end SpecText

namespace Declaration

/-! ## Reading what is written -/

/-- A front, a colon, a blank and a specification. -/
theorem readArgument_front {front name spec : List Char} {autocomplete : Bool} (hf : Tight front)
    (hfne : front ≠ []) (hcolon : ':' ∉ front) (hstar : splitStar front = (name, autocomplete))
    (hname : name ≠ []) (hs : Tight spec) (hne : spec ≠ []) (raw : String) (required : Bool) :
    readArgument raw (front ++ ':' :: ' ' :: spec, required)
      = if spec.contains '|' then readChoices raw (String.ofList name) spec required
        else if spec.any fun c => c = '<' || c = '>' then
          ((Bounds.read (String.ofList name) spec required).map fun a =>
            { a with autocomplete }).mapError (.grammar raw)
        else (readType (String.ofList name) spec required).map fun a =>
          { a with autocomplete } := by
  have htrim : trim (front ++ ':' :: ' ' :: spec) = front ++ ':' :: ' ' :: spec :=
    trim_of_tight (hf.append hs hfne hne [':', ' '])
  have hfirst : splitFirst ':' (front ++ ':' :: ' ' :: spec) = some (front, ' ' :: spec) :=
    Token.splitFirst_eq_some_iff.2 ⟨rfl, hcolon⟩
  have hsplit : splitSpec (front ++ ':' :: ' ' :: spec) = (front, spec) := by
    simp only [splitSpec, hfirst, trim_of_tight hf, trim_cons_blank, trim_of_tight hs]
  have hempty : name.isEmpty = false := by simpa using hname
  simp only [readArgument, htrim, hsplit, hstar, hempty]
  rcases Bounds.read (String.ofList name) spec required with reason | a <;> rfl

section Inner

variable {name : String} (hn : Named name) (autocomplete : Bool)

include hn

theorem star_plain : ∀ c ∈ Argument.starred name autocomplete,
    isBlank c = false ∧ c ∉ endMarks := by
  intro c hc
  rcases List.mem_append.1 hc with hc | hc
  · cases autocomplete with
    | false => simp at hc
    | true =>
      rw [if_pos rfl, List.mem_singleton] at hc
      exact hc ▸ ⟨by decide, by decide⟩
  · obtain ⟨hblank, hmark⟩ := hn.plain c hc
    exact ⟨hblank, fun h => hmark (.tail _ (.tail _ h))⟩

theorem splitStar_starred :
    splitStar (Argument.starred name autocomplete) = (name.toList, autocomplete) := by
  have hplain := hn.plain
  cases autocomplete with
  | false =>
    obtain ⟨c, cs, hc⟩ := List.exists_cons_of_ne_nil hn.ne_nil
    have hstar : c ≠ '*' := by
      rintro rfl
      exact (hplain '*' (by simp [hc])).2 (by decide)
    simp [Argument.starred, splitStar, hc, hstar]
  | true =>
    have htrim := trim_of_tight (tight_of_forall fun c hc => (hplain c hc).1)
    simp [Argument.starred, splitStar, htrim]

theorem readArgument_written (raw : String) (required : Bool) {spec : List Char}
    (hs : Tight spec) (hne : spec ≠ []) :
    readArgument raw (Argument.starred name autocomplete ++ ':' :: ' ' :: spec, required)
      = if spec.contains '|' then readChoices raw name spec required
        else if spec.any fun c => c = '<' || c = '>' then
          match Bounds.read name spec required with
          | .ok a => .ok { a with autocomplete }
          | .error reason => .error (.grammar raw reason)
        else (readType name spec required).map fun a => { a with autocomplete } := by
  have hfront := star_plain hn autocomplete
  have hfront' : Tight (Argument.starred name autocomplete) :=
    tight_of_forall fun c hc => (hfront c hc).1
  have hne' : Argument.starred name autocomplete ≠ [] := by simp [Argument.starred, hn.ne_nil]
  have hcolon : ':' ∉ Argument.starred name autocomplete :=
    fun hc => (hfront ':' hc).2 List.mem_cons_self
  rw [readArgument_front hfront' hne' hcolon (splitStar_starred hn autocomplete) hn.ne_nil hs hne,
    String.ofList_toList]
  rcases Bounds.read name spec required with reason | a <;> rfl

/-! ### Choices, bounds and types -/

variable (raw : String) (required : Bool)

theorem readArgument_choices {texts : List (List Char)} (h : 2 ≤ texts.length)
    (ht : ∀ t ∈ texts, Listed t) :
    readArgument raw (Argument.starred name autocomplete ++ ':' :: ' ' :: joined texts, required)
      = .ok { Argument.plain name (Choice.infer texts).1 required with
          choices := (Choice.infer texts).2 } := by
  have hne : texts ≠ [] := List.ne_nil_of_length_pos (by omega)
  have hnone : (texts.any List.isEmpty) = false := List.any_eq_false.2 fun t hmem => by
    simpa using (ht t hmem).ne_nil
  have hbar : (joined texts).contains '|' = true := by simpa using bar_mem_joined h
  rw [readArgument_written hn autocomplete raw required (tight_joined hne ht)
    (joined_ne_nil hne ht), if_pos hbar, readChoices, map_trim_splitWhere hne ht, hnone]
  simp [Nat.not_lt_of_le h]

theorem readArgument_bounds {m : Bounds.Measure} {lo hi : Option (List Char)}
    (hlo : ∀ cs ∈ lo, Numeral cs) (hhi : ∀ cs ∈ hi, Numeral cs) (h : lo.isSome ∨ hi.isSome)
    {a : Argument} (hr : Bounds.read name (Bounds.written m lo hi) required = .ok a) :
    readArgument raw (Argument.starred name autocomplete ++ ':' :: ' ' :: Bounds.written m lo hi,
      required) = .ok { a with autocomplete } := by
  have hbar : (Bounds.written m lo hi).contains '|' = false := by
    simpa using Bounds.not_mem_written hlo hhi (by decide) (by decide) (by decide)
  have hsign : ((Bounds.written m lo hi).any fun c => c = '<' || c = '>') = true := by
    rcases Bounds.sign_written (m := m) hlo hhi h with hs | hs
    · exact List.any_eq_true.2 ⟨_, hs.1, by decide⟩
    · exact List.any_eq_true.2 ⟨_, hs.1, by decide⟩
  have hspec : SpecText [] (Bounds.written m lo hi) := .bounds m hlo hhi h
  rw [readArgument_written hn autocomplete raw required hspec.tight hspec.ne_nil, hbar,
    if_neg Bool.false_ne_true, if_pos hsign, hr]

theorem readArgument_keyword (type : ArgumentType) :
    readArgument raw (Argument.starred name autocomplete ++ ':' :: ' ' :: type.keyword.toList,
        required)
      = .ok { Argument.plain name type required with autocomplete } := by
  have hplain := type.keyword_plain
  have hbar : type.keyword.toList.contains '|' = false := by simpa using hplain '|' (by decide)
  have hsign : (type.keyword.toList.any fun c => c = '<' || c = '>') = false := by
    refine List.any_eq_false.2 fun c hc => ?_
    have hless : c ≠ '<' := fun h => hplain '<' (by decide) (h ▸ hc)
    have hmore : c ≠ '>' := fun h => hplain '>' (by decide) (h ▸ hc)
    simp [hless, hmore]
  have hempty : type.keyword.toList.isEmpty = false := by simpa using type.keyword_ne_nil
  rw [readArgument_written hn autocomplete raw required type.tight_keyword type.keyword_ne_nil,
    hbar, if_neg Bool.false_ne_true, hsign, if_neg Bool.false_ne_true, readType, hempty]
  simp only [Bool.false_eq_true, if_false, type.ofName?_keyword]
  rfl

end Inner

end Declaration

namespace Argument

section Spec

variable {a : Argument}

theorem renderSpec_choices (h : a.choices ≠ []) :
    a.renderSpec.toList = joined (a.choices.map fun c => (choiceText c).toList) := by
  have hc : a.hasChoices = true := by simpa [hasChoices] using h
  rw [renderSpec, if_pos hc, String.toList_intercalate, List.map_map]
  rfl

theorem renderSpec_bounds (hc : a.choices = []) (h : a.min.isSome ∨ a.max.isSome) :
    a.renderSpec.toList = Bounds.written .value (a.min.map (Bounds.valueText a.type))
      (a.max.map (Bounds.valueText a.type)) := by
  have hb : a.hasBounds = true := by simpa [hasBounds] using h
  rw [renderSpec, if_neg (by simp [hasChoices, hc]), if_pos hb]
  exact Bounds.toList_boundExpression rfl _ _ _

theorem renderSpec_lengths (hc : a.choices = []) (hmin : a.min = none) (hmax : a.max = none)
    (h : a.minLength.isSome ∨ a.maxLength.isSome) :
    a.renderSpec.toList = Bounds.written .length (a.minLength.map Bounds.lengthChars)
      (a.maxLength.map Bounds.lengthChars) := by
  have hl : a.hasLength = true := by simpa [hasLength] using h
  rw [renderSpec, if_neg (by simp [hasChoices, hc]), if_neg (by simp [hasBounds, hmin, hmax]),
    if_pos hl]
  exact Bounds.toList_boundExpression rfl _ _ _

end Spec

namespace ReadFrom

variable {inside : List Char} {a : Argument}

theorem infer_ne_nil {literals : List (List Char)} (h : 2 ≤ literals.length) :
    (Choice.infer literals).2 ≠ [] := by
  intro hnil
  have hlength := Choice.length_infer literals
  rw [hnil, List.length_nil] at hlength
  omega

theorem listed_choiceText {literals : List (List Char)}
    (hl : ∀ cs ∈ literals, Listed cs ∧ cs <:+: inside) {c : Choice}
    (hc : c ∈ (Choice.infer literals).2) : Listed (choiceText c).toList
      ∧ ((choiceText c).toList <:+: inside ∨ Numeral (choiceText c).toList) := by
  rcases Choice.text_of_infer hc with hmem | hn
  · exact (hl _ hmem).imp id .inl
  · exact ⟨Choice.listed_of_numeral hn, .inr hn⟩

theorem specText (h : a.ReadFrom inside) : SpecText inside a.renderSpec.toList := by
  cases h with
  | choices name required h hl =>
    rw [renderSpec_choices (infer_ne_nil h)]
    refine .choices (by simpa [Choice.length_infer] using h) fun t ht => ?_
    obtain ⟨c, hc, rfl⟩ := List.mem_map.1 ht
    exact listed_choiceText hl hc
  | bounds name required autocomplete hmin hmax h =>
    rw [renderSpec_bounds rfl h]
    exact .bounds _ (Bounds.numeral_valueText hmin) (Bounds.numeral_valueText hmax)
      (by simpa using h)
  | lengths name required autocomplete h =>
    rw [renderSpec_lengths rfl rfl rfl h]
    exact .bounds _ (Bounds.numeral_lengthChars _) (Bounds.numeral_lengthChars _) (by simpa using h)
  | type name type required autocomplete => exact .keyword type

/-- What is written stands in a bracket of the kind that it was read from. -/
theorem inside_inner (h : a.ReadFrom inside) (hn : Named a.name)
    (hi : Token.Inside a.required inside) : Token.Inside a.required a.inner := by
  have hfront : Token.Inside a.required (starred a.name a.autocomplete) := by
    have hplain {c : Char} (hc : c ∈ endMarks) :
        c ∉ starred a.name a.autocomplete :=
      fun h => (Declaration.star_plain hn a.autocomplete c h).2 hc
    exact .of_not_mem ⟨hplain (by decide), hplain (by decide)⟩ (.inl (hplain (by decide)))
  have hspec := h.specText.inside_of hi
  exact hfront.append hspec.cons_blank (by decide) (by decide)

/-- What is written is read as the argument itself. -/
theorem readArgument_inner (h : a.ReadFrom inside) (hn : Named a.name) (raw : String) :
    Declaration.readArgument raw (a.inner, a.required) = .ok a := by
  rw [inner]
  cases h with
  | @choices name required literals h hl =>
    have htexts : ∀ t ∈ (Choice.infer literals).2.map fun c => (choiceText c).toList, Listed t := by
      intro t ht
      obtain ⟨c, hc, rfl⟩ := List.mem_map.1 ht
      exact (listed_choiceText hl hc).1
    rw [renderSpec_choices (infer_ne_nil h)]
    rw [Declaration.readArgument_choices hn _ raw _ (by simpa [Choice.length_infer] using h) htexts,
      Choice.infer_choiceText]
    rfl
  | bounds name required autocomplete hmin hmax h =>
    rw [renderSpec_bounds rfl h]
    exact Declaration.readArgument_bounds hn autocomplete raw required
      (Bounds.numeral_valueText hmin) (Bounds.numeral_valueText hmax) (by simpa using h)
      (Bounds.read_value hmin hmax h name required)
  | lengths name required autocomplete h =>
    rw [renderSpec_lengths rfl rfl rfl h]
    exact Declaration.readArgument_bounds hn autocomplete raw required
      (Bounds.numeral_lengthChars _) (Bounds.numeral_lengthChars _) (by simpa using h)
      (Bounds.read_length h name required)
  | type name type required autocomplete =>
    exact Declaration.readArgument_keyword hn autocomplete raw required type

end ReadFrom

end Argument

end SlashCommands
