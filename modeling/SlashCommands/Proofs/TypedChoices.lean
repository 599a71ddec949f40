import SlashCommands.Proofs.EditLookups
import SlashCommands.Proofs.KeptArguments
import SlashCommands.Proofs.SpellableArguments

/-!
# Typed choices

Choices that come with options are values with a type of their own. The type that they have together
(`Choice.Common`) says nothing of their order, and going through them one after the other finds it
(`ArgumentOptions.choiceType_ok_iff`). An argument that its text leaves a string takes that type,
and its literals are coerced to it (`ArgumentOptions.offers_of_toArgument`). The check has no place
for a text beside a number, whatever the type (`ArgumentOptions.not_mixed_of_apply`), and none for
the order (`Argument.check_of_perm`).
-/

namespace SlashCommands

open Checked

/-! ## The common type -/

/-- The type that choices have together. Integers count as doubles where one of the others is a
double; texts and numbers have no type together. -/
inductive Choice.Common (cs : List Choice) : ArgumentType → Prop
  | integers (h : ∀ c ∈ cs, c.type = .integer) : Common cs .integer
  | numbers (h : ∀ c ∈ cs, c.type ≠ .string) (hf : ∃ c ∈ cs, c.type = .float) : Common cs .float
  | texts (h : ∀ c ∈ cs, c.type = .string) : Common cs .string

namespace Choice

variable {c : Choice} {cs cs' : List Choice} {type : ArgumentType}

theorem type_cases (c : Choice) : c.type = .integer ∨ c.type = .float ∨ c.type = .string := by
  cases c <;> simp [Choice.type]

/-- It is the same in whatever order they come. -/
theorem Common.perm (h : Common cs type) (hp : cs'.Perm cs) : Common cs' type := by
  cases h with
  | integers h => exact .integers fun c hc => h c (hp.mem_iff.1 hc)
  | numbers h hf =>
    obtain ⟨c, hc, hf⟩ := hf
    exact .numbers (fun c hc => h c (hp.mem_iff.1 hc)) ⟨c, hp.mem_iff.2 hc, hf⟩
  | texts h => exact .texts fun c hc => h c (hp.mem_iff.1 hc)

theorem common_integer_iff : Common cs .integer ↔ ∀ c ∈ cs, c.type = .integer :=
  ⟨fun h => by cases h; assumption, .integers⟩

theorem common_float_iff :
    Common cs .float ↔ (∀ c ∈ cs, c.type ≠ .string) ∧ ∃ c ∈ cs, c.type = .float :=
  ⟨fun h => by cases h; exact ⟨‹_›, ‹_›⟩, fun h => .numbers h.1 h.2⟩

theorem common_string_iff : Common cs .string ↔ ∀ c ∈ cs, c.type = .string :=
  ⟨fun h => by cases h; assumption, .texts⟩

/-- Two choices that are both texts or both numbers may be taken for one of them, the one that is a
double if there is one. -/
theorem common_pair_iff {d : Choice} (h : c.type = .string ↔ d.type = .string) :
    Common (c :: d :: cs) type ↔ Common ((if c.type = .float then c else d) :: cs) type := by
  have hiff : ∀ cs : List Choice, Common cs type ↔
      type = .integer ∧ (∀ c ∈ cs, c.type = .integer)
        ∨ type = .float ∧ (∀ c ∈ cs, c.type ≠ .string) ∧ (∃ c ∈ cs, c.type = .float)
        ∨ type = .string ∧ ∀ c ∈ cs, c.type = .string := by
    intro cs
    constructor
    · rintro (h | ⟨h, hf⟩ | h)
      · exact .inl ⟨rfl, h⟩
      · exact .inr (.inl ⟨rfl, h, hf⟩)
      · exact .inr (.inr ⟨rfl, h⟩)
    · rintro (⟨rfl, h⟩ | ⟨rfl, h, hf⟩ | ⟨rfl, h⟩)
      · exact .integers h
      · exact .numbers h hf
      · exact .texts h
  simp only [hiff, List.forall_mem_cons, List.exists_mem_cons_iff]
  cases c <;> cases d <;> simp_all [Choice.type]

end Choice

namespace ArgumentOptions

open Choice

variable {cs : List Choice} {subject : String} {type : ArgumentType}

theorem join?_type (c d : Choice) : join? c.type d.type
    = if c.type = .string ↔ d.type = .string
      then some (if c.type = .float then c else d).type else none := by
  cases c <;> cases d <;> simp [join?, Choice.type]

/-- Going through the choices finds the type that they have together, if there is one. -/
theorem choiceTypeFrom_ok_iff : ∀ {cs : List Choice} {c : Choice},
    choiceTypeFrom subject c.type cs = .ok type ↔ Common (c :: cs) type
  | [], c => by
    rw [choiceTypeFrom, Except.ok.injEq]
    constructor
    · rintro rfl
      rcases c.type_cases with h | h | h <;> rw [h]
      · exact .integers (by simp [h])
      · exact .numbers (by simp [h]) ⟨c, by simp, h⟩
      · exact .texts (by simp [h])
    · rintro (h | ⟨-, hf⟩ | h)
      · exact h c List.mem_cons_self
      · simpa using hf
      · exact h c List.mem_cons_self
  | d :: cs, c => by
    rw [choiceTypeFrom, join?_type]
    by_cases h : c.type = .string ↔ d.type = .string
    · rw [if_pos h, common_pair_iff h]
      exact choiceTypeFrom_ok_iff
    · rw [if_neg h]
      refine iff_of_false (by simp) ?_
      rintro (hc | ⟨hc, -⟩ | hc)
      all_goals
        rw [List.forall_mem_cons, List.forall_mem_cons] at hc
        simp [hc.1, hc.2.1] at h

theorem choiceType_ok_iff (hne : cs ≠ []) :
    choiceType subject cs = .ok type ↔ Common cs type := by
  obtain ⟨c, cs, rfl⟩ := List.exists_cons_of_ne_nil hne
  exact choiceTypeFrom_ok_iff

/-- Choices have one type together at most. -/
theorem common_unique {type' : ArgumentType} (hne : cs ≠ []) (h : Common cs type)
    (h' : Common cs type') : type = type' := by
  have hfound : choiceType "" cs = .ok type := (choiceType_ok_iff hne).2 h
  have hfound' : choiceType "" cs = .ok type' := (choiceType_ok_iff hne).2 h'
  exact Except.ok.inj (hfound.symm.trans hfound')

/-! ## Options with choices -/

variable {o : ArgumentOptions} {a b : Argument} {p : Path}

theorem withDescription_ok_iff : o.withDescription a = .ok b ↔
    (∀ text ∈ o.description, Described text)
      ∧ b = { a with description := o.description.getD a.description } := by
  rw [withDescription]
  rcases o.description with _ | text
  · simpa using eq_comm
  · simp only [bind_ok_iff, exists_unit_ok_iff, Check.description_ok_iff, pure_ok_iff,
      Option.mem_def, Option.some.injEq, forall_eq', Option.getD_some, eq_comm (b := b)]

/-- The type of an argument with these choices: the declared one, if it is not a string. -/
def typeWith (cs : List Choice) (a : Argument) : Checked ArgumentType :=
  if a.type = .string then choiceType a.name cs else .ok a.type

theorem withChoices_ok_iff (ho : o.choices = some cs) : o.withChoices a = .ok b ↔
    o.autocomplete ≠ some true ∧ ∃ type, typeWith cs a = .ok type
      ∧ b = { a with autocomplete := false, type, choices := cs } := by
  rw [withChoices, ho, typeWith]
  dsimp only
  rw [bind_ok_iff, exists_unit_ok_iff, Check.exclusive_ok_iff]
  have hauto : (true = true → (o.autocomplete == some true) = false)
      ↔ o.autocomplete ≠ some true := by simp
  rw [hauto]
  refine and_congr_right fun _ => ?_
  split_ifs <;> simp only [bind_ok_iff, pure_ok_iff, eq_comm (b := b)]

/-- The declared argument with everything that the options say of it. -/
def fill (o : ArgumentOptions) (cs : List Choice) (type : ArgumentType) (a : Argument) : Argument :=
  Argument.coerceLiterals { a with
    description := o.description.getD a.description
    type
    choices := cs
    autocomplete := false
    min := o.min <|> a.min
    max := o.max <|> a.max
    minLength := o.minLength <|> a.minLength
    maxLength := o.maxLength <|> a.maxLength }

theorem toArgument_ok_iff (ho : o.choices = some cs) : o.toArgument = .ok (p, b) ↔
    (∀ text ∈ o.description, Described text) ∧ o.autocomplete ≠ some true
      ∧ ∃ a type, Declaration.parseSingle o.text = .ok (p, a) ∧ typeWith cs a = .ok type
        ∧ b = o.fill cs type a := by
  have hfill : o.autocomplete ≠ some true → o.autocomplete.getD false = false := by
    rcases o.autocomplete with _ | _ | _ <;> simp
  simp only [toArgument, bind_ok_iff, pure_ok_iff, withDescription_ok_iff, withChoices_ok_iff ho,
    Prod.mk.injEq]
  constructor
  · rintro ⟨⟨q, a⟩, hread, -, ⟨hd, rfl⟩, -, ⟨hauto, type, ht, rfl⟩, rfl, rfl⟩
    refine ⟨hd, hauto, a, type, hread, ht, ?_⟩
    simp only [fill, hfill hauto]
  · rintro ⟨hd, hauto, a, type, hread, ht, rfl⟩
    refine ⟨(p, a), hread, _, ⟨hd, rfl⟩, _, ⟨hauto, type, ht, rfl⟩, rfl, ?_⟩
    simp only [fill, hfill hauto]

end ArgumentOptions

/-! ## The check of permuted choices -/

theorem Check.choices_ok_iff {values : List Choice} {subject : String} :
    choices values subject = .ok () ↔ (1 ≤ values.length ∧ values.length ≤ 25)
      ∧ ∀ c ∈ values, 1 ≤ c.text.length ∧ c.text.length ≤ 100 := by
  rw [choices, bind_ok_iff, exists_unit_ok_iff, count_ok_iff]
  refine and_congr_right fun _ => forM_ok_iff.trans ?_
  simp only [count_ok_iff, maxChoice]

namespace Argument

variable {a b : Argument} {cs : List Choice}

/-- The check looks at each of the choices, and not at their order. -/
theorem check_of_perm (hp : cs.Perm a.choices) (h : a.check = .ok ()) :
    ({ a with choices := cs } : Argument).check = .ok () := by
  have hhas : ({ a with choices := cs } : Argument).hasChoices = a.hasChoices := by
    have hempty : cs.isEmpty = a.choices.isEmpty := by
      rw [Bool.eq_iff_iff, List.isEmpty_iff_length_eq_zero, List.isEmpty_iff_length_eq_zero,
        hp.length_eq]
    exact congrArg not hempty
  have hchoices : a.checkChoices = .ok () →
      ({ a with choices := cs } : Argument).checkChoices = .ok () := by
    rw [checkChoices_ok_iff, checkChoices_ok_iff, Check.choices_ok_iff, Check.choices_ok_iff]
    rintro ⟨htakes, ⟨hcount, htexts⟩, hfits⟩
    exact ⟨htakes, ⟨hp.length_eq ▸ hcount, fun c hc => htexts c (hp.mem_iff.1 hc)⟩,
      fun c hc => hfits c (hp.mem_iff.1 hc)⟩
  obtain ⟨hname, hdescription, h⟩ := check_ok_iff.1 h
  refine check_ok_iff.2 ⟨hname, hdescription, ?_⟩
  simp only [bind_ok_iff, exists_unit_ok_iff] at h ⊢
  rw [hhas]
  obtain ⟨hauto, hbounds, hlength, h⟩ := h
  refine ⟨hauto, hbounds, hlength, ?_⟩
  split_ifs at h ⊢
  · simp only [bind_ok_iff, exists_unit_ok_iff] at h ⊢
    exact ⟨hchoices h.1, h.2⟩
  · exact h

end Argument

/-! ## Adding one argument -/

namespace Draft

variable {κ : Type} {d d' : Draft κ} {p : Path} {a b : Argument}

theorem declare_single_ok_iff : d.declare ⟨p, [a]⟩ = .ok d' ↔
    ∃ e, d.ensurePath p = .ok e ∧ e.addArgument p a = .ok d' := by
  rw [declare_of_ne_nil (by simp), bind_ok_iff]
  simp only [List.foldlM_cons, List.foldlM_nil, bind_pure]

/-- Whether an argument is taken depends on its name, on whether it is required and on its check. -/
theorem exists_declare_of_alike (hp : p.TakesArguments) (h : d.declare ⟨p, [a]⟩ = .ok d')
    (hb : b.check = .ok ()) (hname : b.name = a.name) (hrequired : b.required = a.required) :
    ∃ d'', d.declare ⟨p, [b]⟩ = .ok d'' := by
  obtain ⟨e, he, h⟩ := declare_single_ok_iff.1 h
  obtain ⟨-, as, -, has, hn, hf, hlen, -, -⟩ := addArgument_ok_iff.1 h
  obtain ⟨-, t, ht⟩ := (openAt_of_ensurePath he).exists_arguments hp (· ++ [b])
  have hadd : e.addArgument p b = .ok { e with tree := t } := by
    refine addArgument_ok_iff.2 ⟨hb, as, t, has, hname ▸ hn, ?_, hlen, ht, rfl⟩
    rw [checkFollows_ok_iff, hrequired]
    exact checkFollows_ok_iff.1 hf
  exact ⟨_, declare_single_ok_iff.2 ⟨e, he, hadd⟩⟩

/-- An argument that was added is there. -/
theorem exists_of_declare (h : d.declare ⟨p, [a]⟩ = .ok d') (hd' : d'.Sound) :
    ∃ as, d'.tree.arguments? p = some as ∧ a ∈ as := by
  obtain ⟨e, -, h⟩ := declare_single_ok_iff.1 h
  obtain ⟨-, as, t, -, -, -, -, ht, rfl⟩ := addArgument_ok_iff.1 h
  obtain ⟨before, bs, after, -, hn⟩ := Tree.exists_nodes_of_changeArguments ht
  have hm : (p, bs ++ [a]) ∈ t.nodes := by
    rw [hn]
    exact mem_replaced
  exact ⟨_, hd'.tree.unambiguous.mem_nodes_iff.1 hm, List.mem_append_right _ List.mem_cons_self⟩

end Draft

/-! ## What is made of typed choices -/

namespace Choice

variable {type : ArgumentType}

theorem coerce_of_ne_float (h : type ≠ .float) (c : Choice) : c.coerce type = c := by
  cases c with
  | integer v => exact if_neg h
  | float x => rfl
  | string text => rfl

/-- A text stays one, and nothing else becomes one. -/
theorem coerce_type_eq_string_iff (type : ArgumentType) (c : Choice) :
    (c.coerce type).type = .string ↔ c.type = .string := by
  cases c with
  | integer v =>
    rw [coerce]
    split_ifs <;> simp [Choice.type]
  | float x => rfl
  | string text => rfl

end Choice

/-- The argument is of the type that the choices have together. It offers them as literals of that
type, in their order, and takes nothing else. -/
structure Argument.Offers (b : Argument) (cs : List Choice) : Prop where
  integer : b.type = .integer ↔ ∀ c ∈ cs, c.type = .integer
  float : b.type = .float ↔ (∀ c ∈ cs, c.type ≠ .string) ∧ ∃ c ∈ cs, c.type = .float
  string : b.type = .string ↔ ∀ c ∈ cs, c.type = .string
  choices : b.choices = cs.map (Choice.coerce b.type)
  same : b.type ≠ .float → b.choices = cs
  autocomplete : b.autocomplete = false

theorem Argument.offers_of_common {b : Argument} {cs : List Choice} (hne : cs ≠ [])
    (hc : Choice.Common cs b.type) (hchoices : b.choices = cs.map (Choice.coerce b.type))
    (hauto : b.autocomplete = false) : b.Offers cs where
  integer := ⟨fun h => Choice.common_integer_iff.1 (h ▸ hc),
    fun h => ArgumentOptions.common_unique hne hc (Choice.common_integer_iff.2 h)⟩
  float := ⟨fun h => Choice.common_float_iff.1 (h ▸ hc),
    fun h => ArgumentOptions.common_unique hne hc (Choice.common_float_iff.2 h)⟩
  string := ⟨fun h => Choice.common_string_iff.1 (h ▸ hc),
    fun h => ArgumentOptions.common_unique hne hc (Choice.common_string_iff.2 h)⟩
  choices := hchoices
  same h := by
    rw [hchoices, List.map_congr_left fun c _ => Choice.coerce_of_ne_float h c, List.map_id']
  autocomplete := hauto

namespace ArgumentOptions

variable {κ η : Type} {o : ArgumentOptions} {cs cs' : List Choice} {p : Path} {a b : Argument}
  {d d' : Draft κ}

theorem apply_ok_iff : (Edit.argumentWith o).apply d = .ok d' ↔
    ∃ p b, o.toArgument = .ok (p, b) ∧ d.declare ⟨p, [b]⟩ = .ok d' := by
  simp only [Edit.apply, bind_ok_iff, Prod.exists]

theorem check_of_declare_single (h : d.declare ⟨p, [b]⟩ = .ok d') : b.check = .ok () := by
  obtain ⟨e, -, h⟩ := Draft.declare_single_ok_iff.1 h
  exact (Draft.addArgument_ok_iff.1 h).1

theorem offers_of_toArgument (ho : o.choices = some cs) (hne : cs ≠ [])
    (hread : Declaration.parseSingle o.text = .ok (p, a)) (ht : a.type = .string) {q : Path}
    (hb : o.toArgument = .ok (q, b)) : q = p ∧ b.name = a.name ∧ b.Offers cs := by
  obtain ⟨-, -, c, type, hread', htype, rfl⟩ := (toArgument_ok_iff ho).1 hb
  obtain ⟨rfl, rfl⟩ := Prod.mk.inj (Except.ok.inj (hread'.symm.trans hread))
  rw [typeWith, if_pos ht, choiceType_ok_iff hne] at htype
  exact ⟨rfl, rfl, Argument.offers_of_common hne htype rfl rfl⟩

/-- The check takes literals of one type only. -/
theorem not_mixed_of_apply (ho : o.choices = some cs)
    (h : (Edit.argumentWith o).apply d = .ok d') :
    (∀ c ∈ cs, c.type = .string) ∨ ∀ c ∈ cs, c.type ≠ .string := by
  obtain ⟨p, b, hb, h⟩ := apply_ok_iff.1 h
  have htyped := Argument.typed_of_check (check_of_declare_single h)
    (Argument.coerced_of_toArgument hb)
  obtain ⟨-, -, a, type, -, -, rfl⟩ := (toArgument_ok_iff ho).1 hb
  have hall : ∀ c ∈ cs, (c.type = .string ↔ type = .string) := fun c hc => by
    rw [← Choice.coerce_type_eq_string_iff type,
      htyped.choices _ (List.mem_map_of_mem hc)]
    rfl
  -- So it is up to the type whether they are all texts or all numbers.
  by_cases hs : type = .string
  · exact .inl fun c hc => (hall c hc).2 hs
  · exact .inr fun c hc => mt (hall c hc).1 hs

theorem typeWith_of_perm (hp : cs'.Perm cs) {type : ArgumentType}
    (h : typeWith cs a = .ok type) : typeWith cs' a = .ok type := by
  rw [typeWith] at h ⊢
  split_ifs at h ⊢
  · by_cases hne : cs = []
    · subst hne
      rwa [hp.eq_nil]
    · have hne' : cs' ≠ [] := fun he => hne (hp.symm.trans (he ▸ .refl _)).eq_nil
      exact (choiceType_ok_iff hne').2 (((choiceType_ok_iff hne).1 h).perm hp)
  · exact h

theorem toArgument_of_perm (ho : o.choices = some cs) (hp : cs'.Perm cs)
    (h : o.toArgument = .ok (p, b)) : { o with choices := some cs' }.toArgument
      = .ok (p, { b with choices := cs'.map (Choice.coerce b.type) }) := by
  obtain ⟨hd, hauto, a, type, hread, ht, rfl⟩ := (toArgument_ok_iff ho).1 h
  exact (toArgument_ok_iff rfl).2 ⟨hd, hauto, a, type, hread, typeWith_of_perm hp ht, rfl⟩

theorem accepted_of_perm (ho : o.choices = some cs) (hp : cs'.Perm cs)
    (h : (Edit.argumentWith o).apply d = .ok d') :
    ∃ d'', (Edit.argumentWith { o with choices := some cs' }).apply d = .ok d'' := by
  obtain ⟨p, b, hb, h⟩ := apply_ok_iff.1 h
  have hchoices : b.choices = cs.map (Choice.coerce b.type) := by
    obtain ⟨-, -, a, type, -, -, rfl⟩ := (toArgument_ok_iff ho).1 hb
    rfl
  have hcheck := Argument.check_of_perm (hchoices ▸ hp.map (Choice.coerce b.type))
    (check_of_declare_single h)
  obtain ⟨d'', h⟩ := Draft.exists_declare_of_alike (takesArguments_of_toArgument hb) h hcheck
    rfl rfl
  exact ⟨d'', apply_ok_iff.2 ⟨p, _, toArgument_of_perm ho hp hb, h⟩⟩

/-- Typed choices decide the type of an argument that its text leaves a string, in whatever order
they come: a sealed command has the argument at its path with the type that they have together, and
it offers just them. Texts and numbers together are refused whatever the text says, and choices in
another order are accepted as well, or as little, and make an argument of the same type. -/
theorem typed_choices_decide (ho : o.choices = some cs) :
    (cs ≠ [] → ∀ {p a}, Declaration.parseSingle o.text = .ok (p, a) → a.type = .string →
      ∀ {name description : String} {es es' : List (Edit κ)} {terminal : Draft.Terminal η}
        {s : Spec η κ},
        (((Builder.new name description).edits (es ++ .argumentWith o :: es')).finish terminal).2
            = .ok s →
          ∃ as b, s.tree.arguments? p = some as
            ∧ as.find? (fun c => c.name == a.name) = some b ∧ b.Offers cs)
      ∧ ((∃ c ∈ cs, c.type = .string) → (∃ c ∈ cs, c.type ≠ .string) →
        ∀ d : Draft κ, ∃ fault, (Edit.argumentWith o).apply d = .error fault)
      ∧ ∀ cs', cs'.Perm cs →
        (∀ d : Draft κ,
          (∃ d', (Edit.argumentWith { o with choices := some cs' }).apply d = .ok d')
            ↔ ∃ d', (Edit.argumentWith o).apply d = .ok d')
        ∧ ∀ {q q' b b'}, o.toArgument = .ok (q, b) →
          { o with choices := some cs' }.toArgument = .ok (q', b') →
            q' = q ∧ b'.type = b.type := by
  refine ⟨fun hne {p a} hread ht {name description es es' terminal s} hs => ?_, fun hs hn d => ?_,
    fun cs' hp => ⟨fun d => ⟨fun ⟨d', h⟩ => ?_, fun ⟨d', h⟩ => accepted_of_perm ho hp h⟩,
      fun {q q' b b'} hb hb' => ?_⟩⟩
  · obtain ⟨d, d', f, hd, he, hes, hs⟩ := Builder.exists_apply_of_finish hs
    obtain ⟨q, b, hb, h⟩ := apply_ok_iff.1 he
    obtain ⟨rfl, hname, hoffers⟩ := offers_of_toArgument ho hne hread ht hb
    obtain ⟨as, has, hm⟩ := Draft.exists_of_declare h (hd.edit he).sound
    obtain ⟨bs, w, hbs, hfind⟩ := (hd.edit he).kept hes hs has hm
    rw [hname] at hfind
    exact ⟨bs, _, hbs, hfind, hoffers.integer, hoffers.float, hoffers.string, hoffers.choices,
      hoffers.same, hoffers.autocomplete⟩
  · rcases h : (Edit.argumentWith o).apply d with fault | d'
    · exact ⟨fault, rfl⟩
    · obtain ⟨c, hc, hs⟩ := hs
      obtain ⟨c', hc', hn⟩ := hn
      rcases not_mixed_of_apply ho h with hall | hall
      · exact absurd (hall c' hc') hn
      · exact absurd hs (hall c hc)
  · have hback : { { o with choices := some cs' } with choices := some cs } = o := by
      rw [← ho]
    rw [← hback]
    exact accepted_of_perm rfl hp.symm h
  · rw [toArgument_of_perm ho hp hb] at hb'
    obtain ⟨rfl, rfl⟩ := Prod.mk.inj (Except.ok.inj hb')
    exact ⟨rfl, rfl⟩

/-- Integers and a double, where the text has two choices of its own. -/
def rateOptions : ArgumentOptions :=
  Builder.choiceOptions "rate set <value: low | high>"
    [.integer 1, .float (.ofInt 2), .integer 3]

/-- The argument is described after it was added, and others are added there. -/
def rateEdits : List (Edit Unit) :=
  [.docs [("rate set value", .plain "How good it was")], .argument "rate set [why]"]

theorem rateOptions_typed_choices_decide :
    ∃ s as b, (((Builder.new "course" "Rates a course").edits
        ([.subgroup "rate" "Ratings"] ++ .argumentWith rateOptions :: rateEdits)).finish
          (.action ())).2 = .ok s
      ∧ s.tree.arguments? (.nested "rate" "set") = some as
      ∧ as.find? (fun c => c.name == "value") = some b
      ∧ b.Offers [.integer 1, .float (.ofInt 2), .integer 3] ∧ b.type = .float := by
  have hok : (((Builder.new "course" "Rates a course").edits
      ([.subgroup "rate" "Ratings"] ++ .argumentWith rateOptions :: rateEdits)).finish
        (.action ())).2.isOk = true := by
    decide +kernel
  have hread : Declaration.parseSingle rateOptions.text = .ok (.nested "rate" "set",
      { Argument.plain "value" .string true with choices := [.string "low", .string "high"] }) := by
    decide +kernel
  rcases hs : (((Builder.new "course" "Rates a course").edits
      ([.subgroup "rate" "Ratings"] ++ .argumentWith rateOptions :: rateEdits)).finish
        (.action ())).2 with fault | s
  · rw [hs] at hok
    cases hok
  · obtain ⟨as, b, has, hb, hoffers⟩ :=
      (typed_choices_decide rfl).1 (by simp) hread rfl hs
    refine ⟨s, as, b, hs, has, hb, hoffers, hoffers.float.2 ⟨by decide, ?_⟩⟩
    exact ⟨.float (.ofInt 2), by simp, rfl⟩

end ArgumentOptions

end SlashCommands
