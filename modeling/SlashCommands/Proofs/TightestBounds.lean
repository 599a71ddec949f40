import SlashCommands.Proofs.BoundOrder
import SlashCommands.Proofs.BoundText

/-!
# The tightest bounds

Of the numerals on one side of a bound expression the greatest or the least is kept, as doubles are
ordered (`Bounds.read_of_value`). So of integers the tightest one is kept, unless another one
becomes the same double; where that does not happen, the order of the comparisons does not matter
(`Bounds.tightest_of_read`). Of integers that become one double the kept one depends on the order,
and need not be the tightest (`Bounds.wideTerms_not_tightest`).
-/

namespace SlashCommands

open Checked

theorem Binary64.key_le_of_totalKey_le {x y : Binary64} (h : x.totalKey ≤ y.totalKey) :
    x.key ≤ y.key := by
  simp only [totalKey, key] at h ⊢
  split_ifs at h ⊢ <;> omega

namespace Bounds

/-! ## What is kept -/

/-- The number that all of them are within, none of none. -/
def Outermost (within : Number → Number → Prop) (ns : List Number) : Option Number → Prop
  | none => ns = []
  | some n => n ∈ ns ∧ ∀ k ∈ ns, within k n

/-- The greatest of the numbers in the order of doubles. -/
def Greatest : List Number → Option Number → Prop :=
  Outermost fun k n => order k ≤ order n

/-- The least of the numbers in the order of doubles. -/
def Least : List Number → Option Number → Prop :=
  Outermost fun k n => order n ≤ order k

section Outermost

variable {within : Number → Number → Prop}

theorem Outermost.of_mem_iff {ns ns' : List Number} (h : ∀ n, n ∈ ns ↔ n ∈ ns') :
    ∀ {o : Option Number}, Outermost within ns o → Outermost within ns' o
  | none, ho => List.eq_nil_iff_forall_not_mem.2 fun n hn => by
    have hnil : ns = [] := ho
    simpa [hnil] using (h n).2 hn
  | some _, ho => ⟨(h _).1 ho.1, fun k hk => ho.2 k ((h k).2 hk)⟩

theorem within_foldl (hrefl : ∀ n, within n n)
    (htrans : ∀ {k m n}, within k m → within m n → within k n) {choose : Number → Number → Number}
    (h : ∀ m n, within m (choose m n) ∧ within n (choose m n)) :
    ∀ (ns : List Number) (n : Number), ∀ k ∈ n :: ns, within k (ns.foldl choose n)
  | [], n, k, hk => by
    rw [List.mem_singleton.1 hk]
    exact hrefl n
  | m :: ns, n, k, hk => by
    have ih := within_foldl hrefl htrans h ns (choose n m)
    have hhead := ih _ List.mem_cons_self
    rcases List.mem_cons.1 hk with rfl | hk
    · exact htrans (h k m).1 hhead
    rcases List.mem_cons.1 hk with rfl | hk
    · exact htrans (h n k).2 hhead
    · exact ih k (List.mem_cons_of_mem _ hk)

end Outermost

theorem greatest_spec (ns : List Number) : Greatest ns (greatest ns) := by
  cases ns with
  | nil => rfl
  | cons n ns =>
    refine ⟨greatest_mem rfl, @within_foldl (fun k n => order k ≤ order n) (fun _ => le_rfl)
      (fun hk hm => le_trans hk hm) _ (fun m n => ?_) ns n⟩
    split_ifs <;> omega

theorem least_spec (ns : List Number) : Least ns (least ns) := by
  cases ns with
  | nil => rfl
  | cons n ns =>
    refine ⟨least_mem rfl, @within_foldl (fun k n => order n ≤ order k) (fun _ => le_rfl)
      (fun hk hm => le_trans hm hk) _ (fun m n => ?_) ns n⟩
    split_ifs <;> omega

/-! ## What is read -/

/-- The numbers of the comparisons. -/
def numbers (found : List Comparison) : List Number :=
  found.filterMap fun c => Number.ofChars? c.numeral

/-- The numbers that bound a side. -/
def literals (side : Side) (found : List Comparison) : List Number :=
  numbers (found.filter fun c => c.side == side)

theorem readNumeral_ok_iff {c : Comparison} {b : Side × Number} :
    readNumeral c = .ok b ↔ Number.ofChars? c.numeral = some b.2 ∧ c.side = b.1 := by
  rcases b with ⟨side, n⟩
  rw [readNumeral]
  rcases Number.ofChars? c.numeral with _ | k
  · simp
  · simp [and_comm]

theorem numbers_cons {c : Comparison} {n : Number} (hn : Number.ofChars? c.numeral = some n)
    (found : List Comparison) : numbers (c :: found) = n :: numbers found := by
  simp [numbers, hn]

/-- The comparisons with their numerals read. -/
theorem exists_bounds : ∀ {found : List Comparison},
    (∀ c ∈ found, (Number.ofChars? c.numeral).isSome) →
      ∃ bounds, found.mapM readNumeral = .ok bounds ∧ bounds.map (·.2) = numbers found
        ∧ ∀ side, (bounds.filter fun b => b.1 == side).map (·.2) = literals side found
  | [], _ => ⟨[], rfl, rfl, fun _ => rfl⟩
  | c :: found, h => by
    obtain ⟨hc, hfound⟩ := List.forall_mem_cons.1 h
    obtain ⟨bounds, hbounds, hnumbers, hsides⟩ := exists_bounds hfound
    obtain ⟨n, hn⟩ := Option.isSome_iff_exists.1 hc
    have hread : readNumeral c = .ok (c.side, n) := readNumeral_ok_iff.2 ⟨hn, rfl⟩
    refine ⟨(c.side, n) :: bounds, by simp [hread, hbounds], ?_, fun side => ?_⟩
    · rw [List.map_cons, hnumbers, numbers_cons hn]
    · by_cases hs : (c.side == side) = true
      · simp only [literals, List.filter_cons, hs, if_true, numbers_cons hn, List.map_cons, hsides]
      · simp only [literals, List.filter_cons, hs, if_false, hsides, Bool.false_eq_true]

theorem any_measure {found : List Comparison} {m : Measure} (hne : found ≠ [])
    (hm : ∀ c ∈ found, c.measure = m) (m' : Measure) :
    (found.any fun c => c.measure == m') = (m == m') := by
  obtain ⟨c, hc⟩ := List.exists_mem_of_ne_nil _ hne
  by_cases hsame : m = m'
  · rw [← hsame, beq_self_eq_true]
    exact List.any_eq_true.2 ⟨c, hc, by simp [hm c hc]⟩
  · rw [beq_false_of_ne hsame]
    exact List.any_eq_false.2 fun c hc => by simp [hm c hc, hsame]

section Read

variable {spec : List Char} (hne : comparisons spec ≠ []) (hrest : leftover spec = [])
  (hn : ∀ c ∈ comparisons spec, (Number.ofChars? c.numeral).isSome)

include hne hrest hn

/-- What comparisons of the value declare. -/
theorem read_of_value (hm : ∀ c ∈ comparisons spec, c.measure = .value) (name : String)
    (required : Bool) :
    read name spec required = .ok (Argument.coerceLiterals
      { Argument.plain name (if (numbers (comparisons spec)).all Number.isInteger
          then ArgumentType.integer else .float) required with
        min := greatest (literals .min (comparisons spec))
        max := least (literals .max (comparisons spec)) }) := by
  obtain ⟨bounds, hbounds, hnumbers, hsides⟩ := exists_bounds hn
  have hempty : (comparisons spec).isEmpty = false := by simpa using hne
  rw [← hsides, ← hsides, ← hnumbers, List.all_map, read]
  simp only [hempty, hrest, any_measure hne hm, hbounds]
  rfl

/-- What comparisons of the length declare. -/
theorem read_of_length (hm : ∀ c ∈ comparisons spec, c.measure = .length) (name : String)
    (required : Bool) :
    read name spec required = do
      let minLength ← lengthBound name (greatest (literals .min (comparisons spec)))
      let maxLength ← lengthBound name (least (literals .max (comparisons spec)))
      return { Argument.plain name .string required with minLength, maxLength } := by
  obtain ⟨bounds, hbounds, -, hsides⟩ := exists_bounds hn
  have hempty : (comparisons spec).isEmpty = false := by simpa using hne
  rw [← hsides, ← hsides, read]
  simp only [hempty, hrest, any_measure hne hm, hbounds]
  rfl

end Read

/-- Whatever declares an argument is made of comparisons that can be read, and of nothing else. -/
theorem accepted_of_read {name : String} {spec : List Char} {required : Bool} {a : Argument}
    (h : read name spec required = .ok a) : comparisons spec ≠ [] ∧ leftover spec = []
      ∧ ∀ c ∈ comparisons spec, (Number.ofChars? c.numeral).isSome := by
  have hreads : ∀ {bounds}, (comparisons spec).mapM readNumeral = .ok bounds →
      ∀ c ∈ comparisons spec, (Number.ofChars? c.numeral).isSome := fun hb c hc => by
    obtain ⟨b, hread⟩ := exists_ok_of_mapM_ok hb c hc
    rw [(readNumeral_ok_iff.1 hread).1]
    rfl
  simp only [read] at h
  split_ifs at h with hfound <;>
    simp only [bind_ok_iff, throw_ne_ok, false_and, exists_false, pure_ok_iff] at h
  · rename_i hrest _ _
    obtain ⟨bounds, hb, -⟩ := h
    exact ⟨by simpa using hfound, by simpa using hrest, hreads hb⟩
  · rename_i hrest _ _
    obtain ⟨bounds, hb, -⟩ := h
    exact ⟨by simpa using hfound, by simpa using hrest, hreads hb⟩

/-! ## Integers -/

/-- The integers that bound a side. -/
def integers (side : Side) (found : List Comparison) : List Int64 :=
  (literals side found).filterMap fun
    | .int v => some v
    | .float _ => none

theorem mem_integers {side : Side} {found : List Comparison} {v : Int64} :
    v ∈ integers side found ↔ .int v ∈ literals side found := by
  rw [integers, List.mem_filterMap]
  constructor
  · rintro ⟨n, hn, hv⟩
    cases n <;> cases hv
    exact hn
  · exact fun h => ⟨_, h, rfl⟩

/-- The tightest of the integers as far as doubles tell, none of none. -/
def Tightest (tighter : Int64 → Int64 → Prop) (vs : List Int64) : Option Number → Prop
  | none => vs = []
  | some n => ∃ v ∈ vs, n = .int v ∧ ∀ u ∈ vs, tighter v u ∨ Binary64.Merged u.toInt v.toInt

/-- No two of the integers become one double. -/
def ToldApart (vs : List Int64) : Prop :=
  ∀ u ∈ vs, ∀ v ∈ vs, Binary64.Merged u.toInt v.toInt → u = v

theorem toldApart_of_lt {vs : List Int64} (h : ∀ v ∈ vs, v.toInt.natAbs < 2 ^ 53) : ToldApart vs :=
  fun u hu _ _ hmerged => absurd hmerged.left (Nat.not_le_of_lt (h u hu))

theorem Tightest.eq_some_iff {tighter : Int64 → Int64 → Prop} [Std.Refl tighter]
    [Std.Antisymm tighter] {vs : List Int64} {o : Option Number} (h : Tightest tighter vs o)
    (hd : ToldApart vs) {v : Int64} :
    o = some (.int v) ↔ v ∈ vs ∧ ∀ u ∈ vs, tighter v u := by
  constructor
  · rintro rfl
    obtain ⟨w, hw, hv, hall⟩ := h
    obtain rfl : v = w := Number.int.inj hv
    refine ⟨hw, fun u hu => (hall u hu).elim id fun hmerged => ?_⟩
    rw [hd u hu v hw hmerged]
    exact Std.Refl.refl v
  · rintro ⟨hv, hall⟩
    rcases o with _ | n
    · rw [show vs = [] from h] at hv
      cases hv
    · obtain ⟨w, hw, rfl, hall'⟩ := h
      rcases hall' v hv with hle | hmerged
      · rw [Std.Antisymm.antisymm w v hle (hall w hw)]
      · rw [hd v hv w hw hmerged]

/-- What is kept of integers that are told apart does not depend on their order. -/
theorem Tightest.unique {tighter : Int64 → Int64 → Prop} [Std.Refl tighter] [Std.Antisymm tighter]
    {vs vs' : List Int64} {o o' : Option Number} (h : Tightest tighter vs o)
    (h' : Tightest tighter vs' o') (hd : ToldApart vs) (hmem : ∀ v, v ∈ vs' ↔ v ∈ vs) :
    o' = o := by
  have hd' : ToldApart vs' := fun u hu v hv => hd u ((hmem u).1 hu) v ((hmem v).1 hv)
  rcases o' with _ | n
  · have hnil : vs' = [] := h'
    rcases o with _ | n
    · rfl
    · obtain ⟨v, hv, -⟩ := h
      simpa [hnil] using (hmem v).2 hv
  · obtain ⟨v, rfl⟩ : ∃ v, n = .int v := by
      obtain ⟨v, -, hv, -⟩ := h'
      exact ⟨v, hv⟩
    obtain ⟨hv, hall⟩ := (h'.eq_some_iff hd').1 rfl
    exact ((h.eq_some_iff hd).2
      ⟨(hmem v).1 hv, fun u hu => hall u ((hmem u).2 hu)⟩).symm

theorem tightest_of_outermost {within : Number → Number → Prop} {tighter : Int64 → Int64 → Prop}
    (ht : ∀ {u v : Int64}, within (.int u) (.int v) →
      tighter v u ∨ Binary64.Merged u.toInt v.toInt)
    {side : Side} {found : List Comparison} {o : Option Number}
    (hi : ∀ n ∈ literals side found, n.isInteger = true)
    (h : Outermost within (literals side found) o) : Tightest tighter (integers side found) o := by
  rcases o with _ | n
  · have hnil : literals side found = [] := h
    exact List.eq_nil_iff_forall_not_mem.2 fun v hv => by simpa [hnil] using mem_integers.1 hv
  · obtain ⟨hn, hall⟩ := h
    rcases n with v | x
    · exact ⟨v, mem_integers.2 hn, rfl, fun u hu => ht (hall _ (mem_integers.1 hu))⟩
    · cases hi _ hn

/-- Integers are in the order of their doubles, unless these are one. -/
theorem le_or_merged_of_order {u v : Int64} (h : order (.int u) ≤ order (.int v)) :
    u ≤ v ∨ Binary64.Merged u.toInt v.toInt := by
  rw [Int64.le_iff_toInt_le]
  exact Binary64.le_or_merged (Binary64.key_le_of_totalKey_le h)

/-- Comparisons of the value with integers. -/
def Whole (found : List Comparison) : Prop :=
  ∀ c ∈ found, c.measure = .value ∧ (Number.ofChars? c.numeral).any Number.isInteger = true

theorem Whole.isInteger {found : List Comparison} (h : Whole found) :
    ∀ n ∈ numbers found, n.isInteger = true := by
  intro n hn
  obtain ⟨c, hc, hread⟩ := List.mem_filterMap.1 hn
  simpa [hread] using (h c hc).2

theorem Whole.isInteger_literals {found : List Comparison} (h : Whole found) (side : Side) :
    ∀ n ∈ literals side found, n.isInteger = true := by
  have hside : Whole (found.filter fun c => c.side == side) := fun c hc =>
    h c (List.mem_of_mem_filter hc)
  exact hside.isInteger

theorem Whole.tightest_greatest {found : List Comparison} (h : Whole found) :
    Tightest (· ≥ ·) (integers .min found) (greatest (literals .min found)) :=
  tightest_of_outermost le_or_merged_of_order (h.isInteger_literals .min) (greatest_spec _)

theorem Whole.tightest_least {found : List Comparison} (h : Whole found) :
    Tightest (· ≤ ·) (integers .max found) (least (literals .max found)) :=
  tightest_of_outermost (fun hle => (le_or_merged_of_order hle).imp id Binary64.Merged.symm)
    (h.isInteger_literals .max) (least_spec _)

theorem read_of_whole {spec : List Char} (hne : comparisons spec ≠ []) (hrest : leftover spec = [])
    (hw : Whole (comparisons spec)) (name : String) (required : Bool) :
    read name spec required = .ok { Argument.plain name .integer required with
      min := greatest (literals .min (comparisons spec))
      max := least (literals .max (comparisons spec)) } := by
  have hn : ∀ c ∈ comparisons spec, (Number.ofChars? c.numeral).isSome := fun c hc =>
    Option.isSome_of_any (hw c hc).2
  have hcoerce : ∀ n : Number, n.coerce .integer = n := by
    rintro (v | x) <;> rfl
  have hall : (numbers (comparisons spec)).all Number.isInteger = true :=
    List.all_eq_true.2 hw.isInteger
  rw [read_of_value hne hrest hn (fun c hc => (hw c hc).1), hall]
  simp [Argument.coerceLiterals, Argument.plain, funext hcoerce]

/-- The order of comparisons that doubles tell apart does not matter. -/
theorem read_of_perm {spec spec' : List Char} (hne : comparisons spec ≠ [])
    (hrest : leftover spec = []) (hrest' : leftover spec' = []) (hw : Whole (comparisons spec))
    (hperm : (comparisons spec').Perm (comparisons spec))
    (hd : ∀ side, ToldApart (integers side (comparisons spec))) (name : String) (required : Bool) :
    read name spec' required = read name spec required := by
  have hne' : comparisons spec' ≠ [] := fun hnil => hne (hnil ▸ hperm).symm.eq_nil
  have hw' : Whole (comparisons spec') := fun c hc => hw c (hperm.subset hc)
  have hmem : ∀ side v,
      v ∈ integers side (comparisons spec') ↔ v ∈ integers side (comparisons spec) :=
    fun side v => (((hperm.filter _).filterMap _).filterMap _).mem_iff
  rw [read_of_whole hne hrest hw, read_of_whole hne' hrest' hw',
    hw.tightest_greatest.unique hw'.tightest_greatest (hd .min) (hmem .min),
    hw.tightest_least.unique hw'.tightest_least (hd .max) (hmem .max)]

/-- Of integers the tightest is kept on each side, except that doubles have to tell it from the
others; where they tell all of them apart, the order of the comparisons does not matter. -/
theorem tightest_of_read {name : String} {spec : List Char} {required : Bool} {a : Argument}
    (h : read name spec required = .ok a) (hw : Whole (comparisons spec)) :
    a.type = .integer
      ∧ Tightest (· ≥ ·) (integers .min (comparisons spec)) a.min
      ∧ Tightest (· ≤ ·) (integers .max (comparisons spec)) a.max
      ∧ (ToldApart (integers .min (comparisons spec)) → ∀ v, a.min = some (.int v) ↔
        v ∈ integers .min (comparisons spec) ∧ ∀ u ∈ integers .min (comparisons spec), v ≥ u)
      ∧ (ToldApart (integers .max (comparisons spec)) → ∀ v, a.max = some (.int v) ↔
        v ∈ integers .max (comparisons spec) ∧ ∀ u ∈ integers .max (comparisons spec), v ≤ u)
      ∧ (ToldApart (integers .min (comparisons spec)) →
        ToldApart (integers .max (comparisons spec)) →
          ∀ spec', (comparisons spec').Perm (comparisons spec) → leftover spec' = [] →
            read name spec' required = .ok a) := by
  obtain ⟨hne, hrest, -⟩ := accepted_of_read h
  have hmin := hw.tightest_greatest
  have hmax := hw.tightest_least
  have hperms : ToldApart (integers .min (comparisons spec)) →
      ToldApart (integers .max (comparisons spec)) →
      ∀ spec', (comparisons spec').Perm (comparisons spec) → leftover spec' = [] →
        read name spec' required = .ok a := by
    intro hdmin hdmax spec' hperm hrest'
    have hd : ∀ side, ToldApart (integers side (comparisons spec)) := by
      rintro (_ | _)
      · exact hdmin
      · exact hdmax
    rw [read_of_perm hne hrest hrest' hw hperm hd, h]
  rw [read_of_whole hne hrest hw] at h
  cases h
  exact ⟨rfl, hmin, hmax, fun hd _ => hmin.eq_some_iff hd, fun hd _ => hmax.eq_some_iff hd, hperms⟩

/-- Two bounds on each side, in another order the second time. -/
theorem fourTerms_tightest_of_read :
    read "n" "x > 3 x > 4 x < 9 x < 7".toList true
        = .ok { Argument.plain "n" .integer true with min := some (.int 4), max := some (.int 7) }
      ∧ Whole (comparisons "x > 3 x > 4 x < 9 x < 7".toList)
      ∧ read "n" "x < 7 x > 4 x > 3 x < 9".toList true
        = .ok { Argument.plain "n" .integer true with
            min := some (.int 4), max := some (.int 7) } := by
  have hread : read "n" "x > 3 x > 4 x < 9 x < 7".toList true
      = .ok { Argument.plain "n" .integer true with
          min := some (.int 4), max := some (.int 7) } := by
    decide +kernel
  have hall : ((comparisons "x > 3 x > 4 x < 9 x < 7".toList).all fun c =>
      c.measure = .value ∧ (Number.ofChars? c.numeral).any Number.isInteger = true) = true := by
    decide +kernel
  have hw : Whole (comparisons "x > 3 x > 4 x < 9 x < 7".toList) := fun c hc =>
    of_decide_eq_true (List.all_eq_true.1 hall c hc)
  have hsmall : ∀ side, ((integers side (comparisons "x > 3 x > 4 x < 9 x < 7".toList)).all
      fun v => v.toInt.natAbs < 2 ^ 53) = true := by
    rintro (_ | _) <;> decide +kernel
  have hd : ∀ side, ToldApart (integers side (comparisons "x > 3 x > 4 x < 9 x < 7".toList)) :=
    fun side => toldApart_of_lt fun v hv =>
      of_decide_eq_true (List.all_eq_true.1 (hsmall side) v hv)
  exact ⟨hread, hw, (tightest_of_read hread hw).2.2.2.2.2 (hd .min) (hd .max) _ (by decide +kernel)
    (by decide +kernel)⟩

/-- Of two lower bounds that both become `2 ^ 53` the last one is kept, be it the looser one. -/
theorem wideTerms_not_tightest :
    Declaration.parseSingle "<n: x > 9007199254740993 x > 9007199254740992>"
        = .ok (.root, { Argument.plain "n" .integer true with
            min := some (.int 9007199254740992) })
      ∧ integers .min (comparisons "x > 9007199254740993 x > 9007199254740992".toList)
        = [9007199254740993, 9007199254740992]
      ∧ (9007199254740992 : Int64) < 9007199254740993
      ∧ Declaration.parseSingle "<n: x > 9007199254740992 x > 9007199254740993>"
        = .ok (.root, { Argument.plain "n" .integer true with
            min := some (.int 9007199254740993) }) :=
  ⟨by decide +kernel, by decide +kernel, by decide, by decide +kernel⟩

end Bounds

end SlashCommands
