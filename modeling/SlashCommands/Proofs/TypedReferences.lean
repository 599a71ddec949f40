import Mathlib.Data.List.TakeWhile
import SlashCommands.Proofs.AnnotationWords
import SlashCommands.Proofs.TreeViews

/-!
# References as arguments are typed

A declaration of one argument is a reference to that argument as long as its annotation has no word
behind a comparison sign, which holds of every name of a type and of all choices without such signs
(`Builder.typed_reference_resolves`). Behind the first sign of a bound expression there always is a
word (`Bounds.compares_of_read`), so an argument that is declared by one is not found under its own
declaration (`Builder.countEdits_not_found`).
-/

namespace SlashCommands

open Text Checked

/-! ## What it resolves to -/

namespace Tree

variable {t : Tree} {p : Path} {as : List Argument} {a : Argument}

theorem entity_of_arguments? (h : t.arguments? p = some as) (ha : a ∈ as) :
    t.Entity (p.names ++ [a.name]) (.argument p a.name) := by
  rcases mem_nodes.1 (mem_nodes_of_arguments? h) with ⟨rfl, rfl⟩ | ⟨s, hleads, rfl⟩
  · exact .argument ha
  · cases hleads with
    | direct hs => exact .argumentOf hs ha
    | nested hg hs => exact .argumentOfNested hg hs ha

/-- Nothing is declared below an argument. -/
theorem not_entity_behind (ht : t.Sound) (h : t.arguments? p = some as) (ha : a ∈ as)
    {more : List String} (hm : more ≠ []) (target : Target) :
    ¬ t.Entity (p.names ++ a.name :: more) target := by
  obtain ⟨name, more, rfl⟩ := List.exists_cons_of_ne_nil hm
  generalize hnames : p.names ++ a.name :: name :: more = names
  intro he
  rcases p with ⟨_ | group, _ | sub⟩
  · cases h
    have hchildren : t.children = [] := ht.apart.resolve_left (List.ne_nil_of_mem ha)
    cases he with
    | subgroup hg => simp [hchildren] at hg
    | subcommand hs => simp [hchildren] at hs
    | nested hg hs => simp [hchildren] at hg
    | argument ha => simp [Path.names] at hnames
    | argumentOf hs ha => simp [hchildren] at hs
    | argumentOfNested hg hs ha => simp [hchildren] at hg
  · obtain ⟨s, hs, rfl⟩ := Option.map_eq_some_iff.1 h
    obtain ⟨hmem, rfl⟩ := subcommand?_eq_some hs
    cases he with
    | argumentOfNested hg =>
      -- the name of the subcommand would be a subgroup's too
      have hname : s.name = _ := (List.cons.inj hnames).1
      cases List.inj_on_of_nodup_map ht.distinct hmem hg hname
    | _ => simp [Path.names] at hnames
  · cases h
  · cases he <;> simp [Path.names] at hnames

end Tree

/-! ## Bound expressions -/

namespace Bounds

/-- A text that has a character of words behind a comparison sign, with no colon in between. -/
def Compares (cs : List Char) : Prop :=
  ∃ front sign mid c rest, cs = front ++ sign :: (mid ++ c :: rest)
    ∧ Token.isBracket sign = true ∧ ':' ∉ mid ∧ Reference.isKept c = true

theorem Compares.of_isInfix {cs ds : List Char} (h : Compares cs) (hi : cs <:+: ds) :
    Compares ds := by
  obtain ⟨front, sign, mid, c, rest, rfl, hs, hmid, hc⟩ := h
  obtain ⟨pre, post, rfl⟩ := hi
  exact ⟨pre ++ front, sign, mid, c, rest ++ post, by simp, hs, hmid, hc⟩

theorem takeSign_eq_some {sign : Char} {cs after : List Char} (h : takeSign sign cs = some after) :
    ∃ front mid, cs = front ++ sign :: (mid ++ after) ∧ ':' ∉ mid := by
  have hfront : cs.takeWhile isBlank ++ trimStart cs = cs := List.takeWhile_append_dropWhile
  have htrim : ∀ ds : List Char, ∃ gap, ds = gap ++ trimStart ds ∧ ':' ∉ gap := fun ds =>
    ⟨_, List.takeWhile_append_dropWhile.symm, (blanks_takeWhile ds).not_mem (by decide)⟩
  rw [takeSign] at h
  split at h
  · rename_i c rest hc
    rw [hc] at hfront
    split_ifs at h with hsign
    subst hsign
    split at h
    · rename_i more
      obtain ⟨gap, hgap, hcolon⟩ := htrim more
      cases h
      refine ⟨cs.takeWhile isBlank, '=' :: gap, ?_, by simp [hcolon]⟩
      rw [List.cons_append, ← hgap, hfront]
    · obtain ⟨gap, hgap, hcolon⟩ := htrim rest
      cases h
      exact ⟨cs.takeWhile isBlank, gap, by rw [← hgap, hfront], hcolon⟩
  · cases h

theorem takeUnsigned_eq_some {cs : List Char} {n : List Char × List Char}
    (h : takeUnsigned cs = some n) : ∃ c rest, cs = c :: rest ∧ isDecimalDigit c = true := by
  rcases cs with _ | ⟨c, rest⟩
  · simp [takeUnsigned] at h
  · refine ⟨c, rest, rfl, ?_⟩
    by_contra hc
    simp [takeUnsigned, hc] at h

theorem isKept_of_isDecimalDigit {c : Char} (h : isDecimalDigit c = true) :
    Reference.isKept c = true := by
  simp [Reference.isKept, isAlphanumeric, isNumber, h]

theorem takeNumeral_eq_some {cs : List Char} {n : List Char × List Char}
    (h : takeNumeral cs = some n) :
    ∃ mid c rest, cs = mid ++ c :: rest ∧ ':' ∉ mid ∧ Reference.isKept c = true := by
  unfold takeNumeral at h
  split at h
  · obtain ⟨n, hn, -⟩ := Option.map_eq_some_iff.1 h
    obtain ⟨c, rest, rfl, hc⟩ := takeUnsigned_eq_some hn
    exact ⟨['-'], c, rest, rfl, by simp, isKept_of_isDecimalDigit hc⟩
  · obtain ⟨c, rest, rfl, hc⟩ := takeUnsigned_eq_some h
    exact ⟨[], c, rest, rfl, by simp, isKept_of_isDecimalDigit hc⟩

variable {sign : Char} {side : Side} {found : Comparison} {cs after : List Char}

theorem compares_of_variableFirst (hs : Token.isBracket sign = true) {before : Option Char}
    (h : variableFirst sign side before cs = some (found, after)) : Compares cs := by
  rcases cs with _ | ⟨v, rest⟩
  · cases h
  · simp only [variableFirst, Option.bind_eq_bind, Option.bind_eq_some_iff] at h
    obtain ⟨measure, -, h⟩ := h
    split_ifs at h
    · simp at h
    simp only [Option.bind_eq_some_iff] at h
    obtain ⟨behind, hsign, n, hn, -⟩ := h
    obtain ⟨front, mid, rfl, hmid⟩ := takeSign_eq_some hsign
    obtain ⟨mid', c, rest', rfl, hmid', hc⟩ := takeNumeral_eq_some hn
    exact ⟨v :: front, sign, mid ++ mid', c, rest', by simp, hs, by simp [hmid, hmid'], hc⟩

theorem compares_of_numeralFirst (hs : Token.isBracket sign = true)
    (h : numeralFirst sign side cs = some (found, after)) : Compares cs := by
  simp only [numeralFirst, Option.bind_eq_bind, Option.bind_eq_some_iff] at h
  obtain ⟨n, hn, behind, hsign, h⟩ := h
  obtain ⟨front, mid, hrest, hmid⟩ := takeSign_eq_some hsign
  obtain ⟨pre, rfl⟩ := takeNumeral_suffix hn
  split at h
  · cases h
  · rename_i v rest
    obtain ⟨measure, hmeasure, -⟩ := Option.bind_eq_some_iff.1 h
    have hkept : Reference.isKept v = true := by
      rw [measureOf?] at hmeasure
      split_ifs at hmeasure with hx hl
      · exact hx ▸ (by decide +kernel)
      · exact hl ▸ (by decide +kernel)
    exact ⟨pre ++ front, sign, mid, v, rest, by simp [hrest], hs, hmid, hkept⟩

/-- What a scan finds, its pattern matches somewhere in the text. -/
theorem exists_of_mem_scan {p : Pattern} {c : Comparison} : ∀ {cs : List Char} {skip : Nat}
    {before : Option Char}, c ∈ (scan p before skip cs).1 →
      ∃ b rest after, rest <:+ cs ∧ p b rest = some (c, after)
  | [], skip, before, h => by cases skip <;> simp [scan] at h
  | d :: cs, skip + 1, before, h => by
    have hmem : c ∈ (scan p (some d) skip cs).1 := h
    obtain ⟨b, rest, after, hsuffix, hp⟩ := exists_of_mem_scan hmem
    exact ⟨b, rest, after, hsuffix.trans (List.suffix_cons d cs), hp⟩
  | d :: cs, 0, before, h => by
    rw [scan] at h
    split at h
    · rename_i found after hfound
      rcases List.mem_cons.1 h with rfl | h
      · exact ⟨before, d :: cs, after, List.suffix_rfl, hfound⟩
      · obtain ⟨b, rest, after, hsuffix, hp⟩ := exists_of_mem_scan h
        exact ⟨b, rest, after, hsuffix.trans (List.suffix_cons d cs), hp⟩
    · obtain ⟨b, rest, after, hsuffix, hp⟩ := exists_of_mem_scan h
      exact ⟨b, rest, after, hsuffix.trans (List.suffix_cons d cs), hp⟩

theorem compares_of_read {name : String} {spec : List Char} {required : Bool} {a : Argument}
    (h : read name spec required = .ok a) : Compares spec := by
  have hne : comparisons spec ≠ [] := by
    intro hnil
    simp [read, hnil] at h
  obtain ⟨c, hc⟩ := List.exists_mem_of_ne_nil _ hne
  obtain ⟨p, hp, hc⟩ := List.mem_flatMap.1 hc
  obtain ⟨b, rest, after, hsuffix, hmatch⟩ := exists_of_mem_scan hc
  refine Compares.of_isInfix ?_ hsuffix.isInfix
  simp only [patterns, List.mem_cons, List.not_mem_nil, or_false] at hp
  rcases hp with rfl | rfl | rfl | rfl
  · exact compares_of_variableFirst rfl hmatch
  · exact compares_of_numeralFirst rfl hmatch
  · exact compares_of_variableFirst rfl hmatch
  · exact compares_of_numeralFirst rfl hmatch

end Bounds

theorem Reference.plainWords_ne_nil {cs : List Char} {c : Char} (hc : c ∈ cs)
    (hk : isKept c = true) : plainWords cs ≠ [] := by
  intro hnil
  have hmem : c ∈ (cs.map clean).filter fun d => !isBlank d :=
    List.mem_filter.2 ⟨List.mem_map.2 ⟨c, hc, clean_of_isKept hk⟩, by simp [isBlank_of_isKept hk]⟩
  rw [← flatten_words, show Text.words (cs.map clean) = [] from hnil] at hmem
  cases hmem

namespace Declaration

open Reference

/-- An annotation keeps everything behind a comparison sign. -/
theorem compared_append {sign : Char} (hs : Token.isBracket sign = true) (rest : List Char) :
    ∀ front : List Char, ∃ kept, compared (front ++ sign :: rest) = kept ++ sign :: rest
  | [] => ⟨[], List.dropWhile_cons_of_neg (by simp [hs])⟩
  | c :: front => by
    by_cases hc : Token.isBracket c = true
    · exact ⟨c :: front, List.dropWhile_cons_of_neg (by simp [hc])⟩
    · obtain ⟨kept, hkept⟩ := compared_append hs rest front
      refine ⟨kept, ?_⟩
      rw [← hkept]
      exact List.dropWhile_cons_of_pos (by simpa using hc)

theorem words_compared_ne_nil {spec : List Char} (h : Bounds.Compares spec) :
    words (String.ofList (compared spec)) ≠ [] := by
  obtain ⟨front, sign, mid, c, rest, rfl, hs, hmid, hc⟩ := h
  obtain ⟨kept, hkept⟩ := compared_append hs (mid ++ c :: rest) front
  have hcolon : ':' ∉ mid ++ [c] := by
    rw [List.mem_append, List.mem_singleton, not_or]
    refine ⟨hmid, ?_⟩
    rintro rfl
    rw [isKept_colon] at hc
    cases hc
  have hsplit : mid ++ c :: rest = (mid ++ [c]) ++ rest := by simp
  rw [words_eq_plainWords, String.toList_ofList, hkept, dropAnnotations_append_bracket hs, hsplit,
    dropAnnotations_append_of_not_colon _ hcolon, ne_eq, List.map_eq_nil_iff]
  exact plainWords_ne_nil (by simp) hc

/-- Bounds come from a bound expression. -/
theorem compares_of_readArgument {raw : String} {b : Bracketed} {a : Argument}
    (h : readArgument raw b = .ok a) (hb : a.hasBounds = true ∨ a.hasLength = true) :
    Bounds.Compares (specText b.1) := by
  refine Bounds.Compares.of_isInfix ?_ (splitSpec_trim b.1).2
  rw [readArgument] at h
  dsimp only at h
  split_ifs at h
  · rw [readChoices] at h
    split_ifs at h
    cases h
    simp [Argument.hasBounds, Argument.hasLength, Argument.plain] at hb
  · split at h
    · rename_i found hf
      exact Bounds.compares_of_read hf
    · cases h
  · obtain ⟨found, hf, rfl⟩ := map_ok_iff.1 h
    rw [readType] at hf
    split at hf
    · cases hf
      simp [Argument.hasBounds, Argument.hasLength, Argument.plain] at hb
    · cases hf

end Declaration

namespace Builder

variable {η κ : Type}

/-- A declaration of one argument, with characters that words may have, leads to that argument in
every sealed command that has it, or to nothing if its annotation has words behind a comparison
sign. An annotation without such signs has none, a bound expression has some. -/
theorem typed_reference_resolves {name description : String} {es : List (Edit κ)}
    {terminal : Draft.Terminal η} {s : Spec η κ}
    (h : (((new name description).edits es).finish terminal).2 = .ok s)
    {raw : String} {path : Path} {a : Argument}
    (hp : Declaration.parseSingle raw = .ok (path, a))
    (hk : ∀ n ∈ path.names ++ [a.name], ∀ c ∈ n.toList, Reference.isKept c = true)
    {as : List Argument} (has : s.tree.arguments? path = some as)
    (ha : a.name ∈ as.map (·.name)) :
    ∃ ws inner behind, Declaration.outline raw = .ok (ws, [(inner, a.required)])
      ∧ behind = Reference.words
        (String.ofList (Declaration.compared (Declaration.specText inner)))
      ∧ Reference.words raw = path.names ++ a.name :: behind
      ∧ (behind = [] → Reference.resolve s.tree raw = .ok (.argument path a.name))
      ∧ (behind ≠ [] →
        Reference.resolve s.tree raw = .error (.notFound "documentation reference" raw))
      ∧ ((∀ c ∈ Declaration.specText inner, Token.isBracket c = false) → behind = [])
      ∧ (a.hasBounds = true ∨ a.hasLength = true → behind ≠ []) := by
  obtain ⟨d, hd, htree⟩ := exists_reachable_of_finish h
  have hsound : s.tree.Sound := htree ▸ hd.sound.tree
  obtain ⟨ws, ⟨inner, required⟩, ho, hread, rfl⟩ := Declaration.parseSingle_ok_iff.1 hp
  have hrequired : a.required = required := (Declaration.readFrom_of_readArgument hread).2
  have hwords := Declaration.words_of_outline ho hread hk
  have hdefault := Declaration.isDefault_of_parseSingle hp
  obtain ⟨b, hb, hname⟩ := List.mem_map.1 ha
  refine ⟨ws, inner, _, hrequired ▸ ho, rfl, hwords, fun hnone => ?_, fun hsome => ?_,
    fun hplain => ?_, fun hbounds => ?_⟩
  · rw [hnone] at hwords
    rw [Reference.resolve_ok_iff hsound hdefault, hwords, ← hname]
    exact Tree.mem_entities_iff.2 (Tree.entity_of_arguments? has hb)
  · refine Reference.resolve_eq_notFound hsound hdefault fun target hmem => ?_
    rw [hwords, ← hname] at hmem
    exact Tree.not_entity_behind hsound has hb hsome target (Tree.mem_entities_iff.1 hmem)
  · have hnil : Declaration.compared (Declaration.specText inner) = [] :=
      List.dropWhile_eq_nil_iff.2 fun c hc => by rw [hplain c hc]; rfl
    rw [hnil]
    rfl
  · exact Declaration.words_compared_ne_nil (Declaration.compares_of_readArgument hread hbounds)

/-- A command with one argument, with choices, in a subcommand. -/
def tagEdits : List (Edit Unit) :=
  [.argument "add [*tag: red | blue]"]

theorem exists_sealed_tagEdits :
    ∃ s as, (((new "team" "Teams").edits tagEdits).finish (.action ())).2 = .ok s
      ∧ s.tree.arguments? (.ofSubcommand "add") = some as ∧ as.map (·.name) = ["tag"] := by
  have h : ((((new "team" "Teams").edits tagEdits).finish (.action ())).2.toOption.bind fun s =>
      (s.tree.arguments? (.ofSubcommand "add")).map fun as => as.map (·.name)) = some ["tag"] := by
    decide +kernel
  obtain ⟨s, hs, h⟩ := Option.bind_eq_some_iff.1 h
  obtain ⟨as, has, hnames⟩ := Option.map_eq_some_iff.1 h
  exact ⟨s, as, toOption_eq_some_iff.1 hs, has, hnames⟩

theorem tagEdits_typed_reference_resolves :
    ∃ s, (((new "team" "Teams").edits tagEdits).finish (.action ())).2 = .ok s
      ∧ Reference.resolve s.tree "add [*tag: red | blue]"
        = .ok (.argument (.ofSubcommand "add") "tag") := by
  obtain ⟨s, as, hs, has, hnames⟩ := exists_sealed_tagEdits
  have hp : ((Declaration.parseSingle "add [*tag: red | blue]").toOption.map fun found =>
      (found.1, found.2.name)) = some (.ofSubcommand "add", "tag") := by
    decide +kernel
  obtain ⟨⟨path, a⟩, hp, hpa⟩ := Option.map_eq_some_iff.1 hp
  obtain ⟨rfl, hname⟩ : path = .ofSubcommand "add" ∧ a.name = "tag" := Prod.mk.inj hpa
  have hkept : ((Path.ofSubcommand "add").names ++ ["tag"]).all
      (fun n => n.toList.all Reference.isKept) = true := by
    decide +kernel
  obtain ⟨ws, inner, behind, -, -, hwords, hresolves, -⟩ :=
    typed_reference_resolves hs (toOption_eq_some_iff.1 hp)
      (fun n hn => List.all_eq_true.1 (List.all_eq_true.1 hkept n (hname ▸ hn))) has
      (by simp [hnames, hname])
  have hdeclared : Reference.words "add [*tag: red | blue]" = ["add", "tag"] := by decide +kernel
  have hnone : behind = [] := by
    rw [hdeclared, hname] at hwords
    simpa [Path.names, Path.ofSubcommand] using hwords
  exact ⟨s, hs, hname ▸ hresolves hnone⟩

/-- An argument with bounds. -/
def countEdits : List (Edit Unit) :=
  [.argument "<count: 1 < x < 5>"]

theorem exists_sealed_countEdits :
    ∃ s, (((new "roll" "Rolls").edits countEdits).finish (.action ())).2 = .ok s
      ∧ s.tree.arguments.map (·.name) = ["count"]
      ∧ Reference.resolve s.tree "<count: 1 < x < 5>"
        = .error (.notFound "documentation reference" "<count: 1 < x < 5>") := by
  have h : ((((new "roll" "Rolls").edits countEdits).finish (.action ())).2.toOption.map fun s =>
      (s.tree.arguments.map (·.name), s.tree.children)) = some (["count"], []) := by
    decide +kernel
  obtain ⟨s, hs, h⟩ := Option.map_eq_some_iff.1 h
  obtain ⟨hnames, hchildren⟩ := Prod.mk.inj h
  have hwords : Reference.words "<count: 1 < x < 5>" = ["count", "x", "5"] := by decide +kernel
  have hdefault : Reference.isDefault "<count: 1 < x < 5>" = false := by decide +kernel
  refine ⟨s, toOption_eq_some_iff.1 hs, hnames, ?_⟩
  simp [Reference.resolve, hdefault, hwords, Reference.resolveWords, Tree.nested?, Tree.subgroup?,
    hchildren]

/-- The argument is declared, but the declaration does not find it. -/
theorem countEdits_not_found :
    (∃ s, (((new "roll" "Rolls").edits countEdits).finish (.action ())).2 = .ok s
      ∧ s.tree.arguments.map (·.name) = ["count"]
      ∧ Reference.resolve s.tree "<count: 1 < x < 5>"
        = .error (.notFound "documentation reference" "<count: 1 < x < 5>"))
      ∧ (∃ a, Declaration.parseSingle "<count: 1 < x < 5>" = .ok (.root, a) ∧ a.name = "count")
      ∧ ∀ c ∈ "count".toList, Reference.isKept c = true := by
  have hp : ((Declaration.parseSingle "<count: 1 < x < 5>").toOption.map fun found =>
      (found.1, found.2.name)) = some (.root, "count") := by
    decide +kernel
  obtain ⟨⟨path, a⟩, hp, hpa⟩ := Option.map_eq_some_iff.1 hp
  obtain ⟨rfl, hname⟩ : path = .root ∧ a.name = "count" := Prod.mk.inj hpa
  have hkept : "count".toList.all Reference.isKept = true := by decide +kernel
  exact ⟨exists_sealed_countEdits, ⟨a, toOption_eq_some_iff.1 hp, hname⟩,
    List.all_eq_true.1 hkept⟩

end Builder

end SlashCommands
