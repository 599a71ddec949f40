import SlashCommands.Proofs.DeclarationText

/-!
# Words in their places

The tokens of a text are misplaced if there is none, if a word stands behind a bracket or if there
are more than two words (`Token.Misplaced`). Their places are settled by themselves: which fault is
reported for them depends on the words and on where the brackets stand, not on what is in the
brackets (`Declaration.outline_error_iff`). Only tokens in their places are read any further, and
then the first bracket that makes no argument is the fault (`Checked.mapM_error_iff`). Together,
`Declaration.segments_by_places`.
-/

namespace SlashCommands

open Checked

/-! ## Places -/

namespace Token

/-- The bare words, in order. -/
def bareWords (ts : List Token) : List (List Char) :=
  ts.filterMap fun
    | word text => some text
    | _ => none

/-- What stands in the brackets, in order, with the kind of each bracket. -/
def bracketed (ts : List Token) : List Declaration.Bracketed :=
  ts.filterMap fun
    | word _ => none
    | required inner => some (inner, true)
    | optional inner => some (inner, false)

/-- The tokens are not those of a declaration, whatever stands in their brackets. -/
def Misplaced (ts : List Token) : Prop :=
  ts = []
    ∨ (∃ before text after, ts = before ++ word text :: after ∧ bracketed before ≠ [])
    ∨ 2 < (bareWords ts).length

/-- What is wrong with a word behind these tokens. -/
inductive Refused (before : List Token) (text : List Char) : GrammarFault → Prop
  | behind (h : bracketed before ≠ []) :
    Refused before text (.wordAfterArgument (String.ofList text))
  | tooMany (h : bracketed before = []) (hw : 2 ≤ (bareWords before).length) :
    Refused before text (.wordTooMany (String.ofList text))

/-- No word stands behind a bracket, and there are two of them at most. -/
structure Placed (ts : List Token) : Prop where
  first : ∀ before text after, ts = before ++ word text :: after → bracketed before = []
  few : (bareWords ts).length ≤ 2

/-- The first thing that is wrong with the places of the tokens. -/
inductive PlaceFault (ts : List Token) : GrammarFault → Prop
  | nothing (h : ts = []) : PlaceFault ts .nothingToRead
  | word {before after : List Token} {text : List Char} {reason : GrammarFault}
    (hts : ts = before ++ word text :: after) (hb : Placed before)
    (h : Refused before text reason) : PlaceFault ts reason

variable {ts : List Token}

theorem misplaced_iff : Misplaced ts ↔ ts = [] ∨ ¬ Placed ts := by
  refine or_congr_right ⟨?_, fun h => ?_⟩
  · rintro (⟨before, text, after, hts, hne⟩ | hmany) h
    · exact hne (h.first before text after hts)
    · exact absurd h.few (Nat.not_le.2 hmany)
  · by_contra hnone
    obtain ⟨hfirst, hfew⟩ := not_or.1 hnone
    refine h ⟨fun before text after hts => ?_, Nat.not_lt.1 hfew⟩
    by_contra hne
    exact hfirst ⟨before, text, after, hts, hne⟩

@[simp]
theorem bareWords_append (ts us : List Token) :
    bareWords (ts ++ us) = bareWords ts ++ bareWords us :=
  List.filterMap_append

@[simp]
theorem bracketed_append (ts us : List Token) :
    bracketed (ts ++ us) = bracketed ts ++ bracketed us :=
  List.filterMap_append

@[simp]
theorem bareWords_nil : bareWords [] = [] :=
  rfl

@[simp]
theorem bracketed_nil : bracketed [] = [] :=
  rfl

@[simp]
theorem bareWords_word (text : List Char) (ts : List Token) :
    bareWords (word text :: ts) = text :: bareWords ts :=
  rfl

@[simp]
theorem bracketed_word (text : List Char) (ts : List Token) :
    bracketed (word text :: ts) = bracketed ts :=
  rfl

@[simp]
theorem bareWords_bracket (b : Declaration.Bracketed) (ts : List Token) :
    bareWords (bracket b.1 b.2 :: ts) = bareWords ts := by
  rcases b with ⟨inner, _ | _⟩ <;> rfl

@[simp]
theorem bracketed_bracket (b : Declaration.Bracketed) (ts : List Token) :
    bracketed (bracket b.1 b.2 :: ts) = b :: bracketed ts := by
  rcases b with ⟨inner, _ | _⟩ <;> rfl

theorem bracket_ne_word (b : Declaration.Bracketed) (text : List Char) :
    bracket b.1 b.2 ≠ word text := by
  rcases b with ⟨inner, _ | _⟩ <;> rintro ⟨⟩

namespace Placed

theorem nil : Placed [] :=
  ⟨by simp, Nat.zero_le 2⟩

theorem concat_bracket (h : Placed ts) (b : Declaration.Bracketed) :
    Placed (ts ++ [bracket b.1 b.2]) where
  first before text after hts := by
    rcases after.eq_nil_or_concat' with rfl | ⟨after, t, rfl⟩
    · obtain ⟨-, hlast⟩ := List.append_inj' hts rfl
      exact absurd (List.cons.inj hlast).1 (bracket_ne_word b text)
    · rw [← List.cons_append, ← List.append_assoc] at hts
      exact h.first before text after (List.append_inj' hts rfl).1
  few := by simpa using h.few

theorem concat_word (h : bracketed ts = []) (text : List Char)
    (hw : (bareWords ts).length < 2) : Placed (ts ++ [word text]) where
  first before other after hts := by
    have hnone : bracketed (ts ++ [word text]) = [] := by simp [h]
    rw [hts, bracketed_append] at hnone
    exact (List.append_eq_nil_iff.1 hnone).1
  few := by simpa using Nat.le_of_lt_succ hw

end Placed

theorem Refused.not_placed {before after : List Token} {text : List Char} {reason : GrammarFault}
    (h : Refused before text reason) : ¬ Placed (before ++ word text :: after) := by
  intro hp
  cases h with
  | behind h => exact h (hp.first before text after rfl)
  | tooMany _ hw =>
    have hfew := hp.few
    simp only [bareWords_append, bareWords_word, List.length_append, List.length_cons] at hfew
    omega

theorem placed_or_refused (ts : List Token) (text : List Char) :
    Placed (ts ++ [word text]) ∨ ∃ reason, Refused ts text reason := by
  by_cases hb : bracketed ts = []
  · rcases Nat.lt_or_ge (bareWords ts).length 2 with hw | hw
    · exact .inl (.concat_word hb text hw)
    · exact .inr ⟨_, .tooMany hb hw⟩
  · exact .inr ⟨_, .behind hb⟩

/-- Tokens are in their places, or there is a first word that is not. -/
theorem placed_or_exists_refused (ts : List Token) : Placed ts ∨
    ∃ before text after reason, ts = before ++ word text :: after ∧ Placed before
      ∧ Refused before text reason := by
  induction ts using List.reverseRecOn with
  | nil => exact .inl .nil
  | append_singleton ts t ih =>
    rcases ih with h | ⟨before, text, after, reason, rfl, hb, hr⟩
    · rcases Declaration.word_or_bracket t with ⟨text, rfl⟩ | ⟨b, rfl⟩
      · rcases placed_or_refused ts text with hp | ⟨reason, hr⟩
        · exact .inl hp
        · exact .inr ⟨ts, text, [], reason, rfl, h, hr⟩
      · exact .inl (h.concat_bracket b)
    · exact .inr ⟨before, text, after ++ [t], reason, by simp, hb, hr⟩

theorem misplaced_iff_exists_fault : Misplaced ts ↔ ∃ reason, PlaceFault ts reason := by
  rw [misplaced_iff]
  constructor
  · rintro (rfl | h)
    · exact ⟨_, .nothing rfl⟩
    · obtain ⟨before, text, after, reason, hts, hb, hr⟩ :=
        (placed_or_exists_refused ts).resolve_left h
      exact ⟨reason, .word hts hb hr⟩
  · rintro ⟨reason, h | ⟨rfl, -, h⟩⟩
    · exact .inl h
    · exact .inr h.not_placed

end Token

/-! ## What the places decide -/

namespace Declaration

open Token

variable {ts : List Token}

/-- Tokens in their places are only sorted. -/
theorem arrange_append (rest : List Token) : ∀ before seen : List Token,
    Placed (seen ++ before) → arrange (bareWords seen) (bracketed seen) (before ++ rest)
      = arrange (bareWords (seen ++ before)) (bracketed (seen ++ before)) rest
  | [], seen, _ => by rw [List.append_nil, List.nil_append]
  | t :: before, seen, h => by
    have hnext := arrange_append rest before (seen ++ [t]) (by simpa using h)
    rw [List.append_assoc, List.singleton_append] at hnext
    rw [← hnext, List.cons_append]
    rcases word_or_bracket t with ⟨text, rfl⟩ | ⟨b, rfl⟩
    · have hbefore : bracketed seen = [] := h.first seen text before rfl
      have hroom : (bareWords seen).length ≠ 2 := by
        have := h.few
        simp only [bareWords_append, bareWords_word, List.length_append, List.length_cons] at this
        omega
      simp [arrange, hbefore, hroom]
    · simp [arrange_bracket]

theorem arrange_of_placed (h : Placed ts) :
    arrange [] [] ts = .ok (bareWords ts, bracketed ts) := by
  have := arrange_append [] ts [] h
  simpa [arrange] using this

theorem arrange_of_refused {before after : List Token} {text : List Char} {reason : GrammarFault}
    (hb : Placed before) (h : Refused before text reason) :
    arrange [] [] (before ++ .word text :: after) = .error reason := by
  have happend := arrange_append (.word text :: after) before [] hb
  rw [bareWords_nil, bracketed_nil, List.nil_append] at happend
  rw [happend]
  cases h with
  | behind h => simp [arrange, h]
  | tooMany h hw =>
    have hfull : (bareWords before).length = 2 := Nat.le_antisymm hb.few hw
    simp [arrange, h, hfull]

variable {raw : String}

theorem outline_of_not_misplaced (hts : Token.read raw.toList = .ok ts) (h : ¬ Misplaced ts) :
    outline raw = .ok (bareWords ts, bracketed ts) := by
  obtain ⟨hne, hp⟩ := not_or.1 (mt misplaced_iff.2 h)
  rw [outline, hts]
  simp [Except.bind, hne, arrange_of_placed (not_not.1 hp)]

theorem outline_of_placeFault (hts : Token.read raw.toList = .ok ts) {reason : GrammarFault}
    (h : PlaceFault ts reason) : outline raw = .error (.grammar raw reason) := by
  rw [outline, hts]
  cases h with
  | nothing h => simp [Except.bind, h]
  | word heq hb hr => simp [Except.bind, heq, arrange_of_refused hb hr]

/-- Which fault there is in the places is decided before any bracket is read. -/
theorem outline_error_iff (hts : Token.read raw.toList = .ok ts) {fault : Fault} :
    outline raw = .error fault ↔ ∃ reason, PlaceFault ts reason ∧ fault = .grammar raw reason := by
  constructor
  · intro h
    have hm : Misplaced ts := by
      by_contra hm
      rw [outline_of_not_misplaced hts hm] at h
      cases h
    obtain ⟨reason, hr⟩ := misplaced_iff_exists_fault.1 hm
    rw [outline_of_placeFault hts hr] at h
    exact ⟨reason, hr, (Except.error.inj h).symm⟩
  · rintro ⟨reason, hr, rfl⟩
    exact outline_of_placeFault hts hr

/-! ## What is read behind that -/

/-- What a bracket is refused with: a fault of the grammar that carries the whole text, or a type
that there is not. -/
inductive BracketFault (raw : String) : Fault → Prop
  | grammar (reason : GrammarFault) : BracketFault raw (.grammar raw reason)
  | type {spec : List Char} (h : ArgumentType.ofName? spec = none) :
    BracketFault raw (.unknownType (String.ofList spec) (ArgumentType.suggestion? spec))

theorem bracketFault_of_readType {name : String} {spec : List Char} {required : Bool}
    {fault : Fault} (h : readType name spec required = .error fault) : BracketFault raw fault := by
  rw [readType] at h
  split at h
  · cases h
  · rename_i hnone
    cases h
    exact .type hnone

theorem bracketFault_of_readArgument {b : Bracketed} {fault : Fault}
    (h : readArgument raw b = .error fault) : BracketFault raw fault := by
  rw [readArgument] at h
  dsimp only at h
  split_ifs at h with hname hbar hangle
  · cases h
    exact .grammar _
  · rw [readChoices] at h
    split_ifs at h
    cases h
    exact .grammar _
  · split at h
    · cases h
    · cases h
      exact .grammar _
  · rcases ht : readType (String.ofList (splitStar (splitSpec (Text.trim b.1)).1).1)
        (splitSpec (Text.trim b.1)).2 b.2 with found | a
    · rw [ht] at h
      cases h
      exact bracketFault_of_readType ht
    · rw [ht] at h
      cases h

/-- The segments of a path. -/
inductive PathSegments : List (List Char) → List Segment → Prop
  | root : PathSegments [] []
  | subcommand (sub : List Char) : PathSegments [sub] [.subcommand (String.ofList sub)]
  | nested (group sub : List Char) : PathSegments [group, sub]
    [.subgroup (String.ofList group), .subcommand (String.ofList sub)]

theorem pathSegments_eq_iff {words : List (List Char)} (h : words.length ≤ 2)
    {path : List Segment} : pathSegments words = path ↔ PathSegments words path := by
  constructor
  · rintro rfl
    rcases words with _ | ⟨_, _ | ⟨_, _ | _⟩⟩
    · exact .root
    · exact .subcommand _
    · exact .nested _ _
    · simp at h
  · rintro (_ | _ | _) <;> rfl

/-- The brackets decide, one after the other. -/
structure ByBrackets (raw : String) (ts : List Token) : Prop where
  /-- The words are the path, and each bracket is one argument. -/
  ok_iff : ∀ {found : List Segment}, segments raw = .ok found ↔
    ∃ path arguments, found = path ++ arguments.map Segment.argument
      ∧ PathSegments (bareWords ts) path
      ∧ List.Forall₂ (fun b a => readArgument raw b = .ok a ∧ a.required = b.2)
        (bracketed ts) arguments
  accepted_iff : (∃ found, segments raw = .ok found) ↔
    ∀ b ∈ bracketed ts, ∃ a, readArgument raw b = .ok a
  /-- The first bracket that is none is the fault. -/
  error_iff : ∀ {fault : Fault}, segments raw = .error fault ↔
    ∃ before b after, bracketed ts = before ++ b :: after
      ∧ (∀ c ∈ before, ∃ a, readArgument raw c = .ok a) ∧ readArgument raw b = .error fault
  kinds : ∀ {fault : Fault}, segments raw = .error fault → BracketFault raw fault

theorem byBrackets (hts : Token.read raw.toList = .ok ts) (h : ¬ Misplaced ts) :
    ByBrackets raw ts := by
  have hfew : (bareWords ts).length ≤ 2 := (not_not.1 (not_or.1 (mt misplaced_iff.2 h)).2).few
  have hsegments : segments raw = (bracketed ts).mapM (readArgument raw) >>= fun arguments =>
      pure (pathSegments (bareWords ts) ++ arguments.map Segment.argument) := by
    rw [segments, outline_of_not_misplaced hts h]
    rfl
  have herror : ∀ {fault : Fault}, segments raw = .error fault ↔
      (bracketed ts).mapM (readArgument raw) = .error fault := by
    intro fault
    rw [hsegments]
    rcases (bracketed ts).mapM (readArgument raw) with found | arguments <;>
      simp [bind, Except.bind, pure, Except.pure]
  have hrequired : ∀ {arguments : List Argument},
      (bracketed ts).mapM (readArgument raw) = .ok arguments ↔
        List.Forall₂ (fun b a => readArgument raw b = .ok a ∧ a.required = b.2)
          (bracketed ts) arguments := by
    intro arguments
    rw [mapM_ok_iff]
    exact ⟨fun h => h.imp fun _ _ ha => ⟨ha, (readFrom_of_readArgument ha).2⟩,
      fun h => h.imp fun _ _ ha => ha.1⟩
  refine ⟨?_, ?_, herror.trans mapM_error_iff, fun hfault => ?_⟩
  · intro found
    rw [hsegments]
    simp only [bind_ok_iff, pure_ok_iff, hrequired]
    constructor
    · rintro ⟨arguments, ha, rfl⟩
      exact ⟨_, arguments, rfl, (pathSegments_eq_iff hfew).1 rfl, ha⟩
    · rintro ⟨path, arguments, rfl, hpath, ha⟩
      exact ⟨arguments, ha, by rw [(pathSegments_eq_iff hfew).2 hpath]⟩
  · constructor
    · rintro ⟨found, hfound⟩
      rw [hsegments, bind_ok_iff] at hfound
      obtain ⟨arguments, ha, -⟩ := hfound
      exact exists_ok_of_mapM_ok ha
    · intro hall
      rcases hs : segments raw with fault | found
      · obtain ⟨before, b, after, hb, -, hfault⟩ := mapM_error_iff.1 (herror.1 hs)
        obtain ⟨a, ha⟩ := hall b (by simp [hb])
        rw [ha] at hfault
        cases hfault
      · exact ⟨found, rfl⟩
  · obtain ⟨-, b, -, -, -, hb⟩ := mapM_error_iff.1 (herror.1 hfault)
    exact bracketFault_of_readArgument hb

/-- Faults in the places win over faults in the brackets: where the tokens are misplaced, the first
of the places is the fault, whatever stands in the brackets, and where they are not, the brackets
alone decide. -/
theorem segments_by_places (hts : Token.read raw.toList = .ok ts) :
    (Misplaced ts →
      ∃ reason, PlaceFault ts reason ∧ segments raw = .error (.grammar raw reason))
      ∧ (¬ Misplaced ts → ByBrackets raw ts) := by
  refine ⟨fun h => ?_, byBrackets hts⟩
  obtain ⟨reason, hr⟩ := misplaced_iff_exists_fault.1 h
  exact ⟨reason, hr, segments_of_outline_error (outline_of_placeFault hts hr)⟩

/-- A bracket of an unknown type with a word behind it, and one behind a bracket without a name. -/
theorem nonsense_segments_by_places :
    (∃ reason, segments "[n: nonsense] x" = .error (.grammar "[n: nonsense] x" reason))
      ∧ segments "add [: int] <n: nonsense>"
        = .error (.grammar "add [: int] <n: nonsense>" .emptyName) := by
  have hbehind : Token.read "[n: nonsense] x".toList
      = .ok [.optional "n: nonsense".toList, .word "x".toList] := by
    decide +kernel
  have hplaced : Token.read "add [: int] <n: nonsense>".toList
      = .ok [.word "add".toList, .optional ": int".toList, .required "n: nonsense".toList] := by
    decide +kernel
  constructor
  · obtain ⟨reason, -, hs⟩ := (segments_by_places hbehind).1
      (.inr (.inl ⟨[.optional "n: nonsense".toList], "x".toList, [], rfl, by decide⟩))
    exact ⟨reason, hs⟩
  · have hadd : Placed [.word "add".toList] :=
      @Placed.concat_word [] rfl "add".toList (by decide)
    have hp : Placed
        [.word "add".toList, .optional ": int".toList, .required "n: nonsense".toList] :=
      (hadd.concat_bracket (": int".toList, false)).concat_bracket ("n: nonsense".toList, true)
    have hm := mt misplaced_iff.1 (not_or.2 ⟨List.cons_ne_nil _ _, not_not.2 hp⟩)
    exact ((segments_by_places hplaced).2 hm).error_iff.2
      ⟨[], _, _, rfl, by simp, by decide +kernel⟩

end Declaration

end SlashCommands
