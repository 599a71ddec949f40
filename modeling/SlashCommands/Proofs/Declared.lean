import SlashCommands.Draft
import SlashCommands.Proofs.Checked

/-!
# Declared arguments

An argument that was read from a declaration has not been documented: it has no localizations
(`Declaration.undocumented_of_parse`), and neither does one that comes with options
(`ArgumentOptions.undocumented_of_toArgument`).
-/

namespace SlashCommands

open Checked

/-- Nothing was said of the argument in any locale. -/
def Argument.Undocumented (a : Argument) : Prop :=
  a.localizations = .empty

namespace Bounds

/-- A bound expression declares a text of bounded length or a number within bounds. -/
theorem eq_plain_of_read {name : String} {spec : List Char} {required : Bool} {a : Argument}
    (h : read name spec required = .ok a) :
    (∃ minLength maxLength, a = { Argument.plain name .string required with minLength, maxLength })
      ∨ ∃ type min max,
        a = ({ Argument.plain name type required with min, max } : Argument).coerceLiterals := by
  simp only [read] at h
  split_ifs at h <;>
    simp only [bind_ok_iff, throw_ne_ok, false_and, exists_false, pure_ok_iff] at h
  · obtain ⟨bounds, -, lo, -, hi, -, rfl⟩ := h
    exact .inl ⟨lo, hi, rfl⟩
  · obtain ⟨bounds, -, rfl⟩ := h
    exact .inr ⟨_, _, _, rfl⟩

theorem undocumented_of_read {name : String} {spec : List Char} {required : Bool} {a : Argument}
    (h : read name spec required = .ok a) : a.Undocumented := by
  rcases eq_plain_of_read h with ⟨lo, hi, rfl⟩ | ⟨type, lo, hi, rfl⟩ <;> rfl

end Bounds

namespace Declaration

theorem undocumented_of_readChoices {raw name : String} {spec : List Char} {required : Bool}
    {a : Argument} (h : readChoices raw name spec required = .ok a) : a.Undocumented := by
  rw [readChoices] at h
  split_ifs at h
  cases h
  rfl

theorem undocumented_of_readType {name : String} {spec : List Char} {required : Bool}
    {a : Argument} (h : readType name spec required = .ok a) : a.Undocumented := by
  rw [readType] at h
  split at h
  · cases h
    rfl
  · cases h

theorem undocumented_of_readArgument {raw : String} {b : Bracketed} {a : Argument}
    (h : readArgument raw b = .ok a) : a.Undocumented := by
  rw [readArgument] at h
  rcases splitSpec (Text.trim b.1) with ⟨name, spec⟩
  rcases splitStar name with ⟨name, autocomplete⟩
  dsimp only at h
  split_ifs at h
  · exact undocumented_of_readChoices h
  · split at h
    · rename_i found hf
      cases h
      exact Bounds.undocumented_of_read (a := found) hf
    · cases h
  · obtain ⟨found, hf, rfl⟩ := map_ok_iff.1 h
    exact undocumented_of_readType (a := found) hf

theorem mem_arguments_foldl {a : Argument} :
    ∀ {xs : List Segment} {d : Declaration}, a ∈ (xs.foldl extend d).arguments →
      a ∈ d.arguments ∨ .argument a ∈ xs
  | [], _, h => .inl h
  | x :: xs, d, h => by
    rcases mem_arguments_foldl (d := d.extend x) h with h | h
    · rcases x with name | name | b
      · exact .inl h
      · exact .inl h
      · rcases List.mem_append.1 h with h | h
        · exact .inl h
        · rw [List.mem_singleton.1 h]
          exact .inr List.mem_cons_self
    · exact .inr (List.mem_cons_of_mem _ h)

theorem not_mem_pathSegments (words : List (List Char)) (a : Argument) :
    .argument a ∉ pathSegments words := by
  rcases words with _ | ⟨_, _ | ⟨_, _ | _⟩⟩ <;> simp [pathSegments]

/-- Every argument of a declaration was read from one of its brackets. -/
theorem exists_readArgument_of_parse {raw : String} {d : Declaration} (h : parse raw = .ok d)
    {a : Argument} (ha : a ∈ d.arguments) : ∃ b, readArgument raw b = .ok a := by
  simp only [parse, segments, bind_ok_iff, pure_ok_iff] at h
  obtain ⟨found, ⟨⟨words, brackets⟩, -, arguments, hargs, rfl⟩, rfl⟩ := h
  rcases mem_arguments_foldl ha with ha | ha
  · cases ha
  · rcases List.mem_append.1 ha with ha | ha
    · exact absurd ha (not_mem_pathSegments words a)
    · obtain ⟨a', ha', he⟩ := List.mem_map.1 ha
      cases he
      obtain ⟨b, -, hb⟩ := mem_of_mapM_ok hargs ha'
      exact ⟨b, hb⟩

theorem undocumented_of_parse {raw : String} {d : Declaration} (h : parse raw = .ok d) :
    ∀ a ∈ d.arguments, a.Undocumented := fun _ ha =>
  have ⟨_, hb⟩ := exists_readArgument_of_parse h ha
  undocumented_of_readArgument hb

theorem undocumented_of_parseSingle {raw : String} {p : Path} {a : Argument}
    (h : parseSingle raw = .ok (p, a)) : a.Undocumented := by
  rw [parseSingle, bind_ok_iff] at h
  obtain ⟨d, hd, h⟩ := h
  split at h
  · rename_i b hb
    cases h
    exact undocumented_of_parse hd a (hb ▸ List.mem_cons_self)
  · cases h

end Declaration

namespace ArgumentOptions

variable {o : ArgumentOptions} {a b : Argument}

theorem undocumented_withDescription (ha : a.Undocumented) (h : o.withDescription a = .ok b) :
    b.Undocumented := by
  rw [withDescription] at h
  split at h
  · cases h
    exact ha
  · simp only [bind_ok_iff, exists_unit_ok_iff, pure_ok_iff] at h
    rw [← h.2]
    exact ha

theorem undocumented_withChoices (ha : a.Undocumented) (h : o.withChoices a = .ok b) :
    b.Undocumented := by
  rw [withChoices] at h
  split at h
  · cases h
    exact ha
  · split_ifs at h <;> simp only [bind_ok_iff, exists_unit_ok_iff, pure_ok_iff] at h
    all_goals
      obtain ⟨-, type, -, rfl⟩ := h
      exact ha

theorem undocumented_of_toArgument {p : Path} (h : o.toArgument = .ok (p, a)) :
    a.Undocumented := by
  simp only [toArgument, bind_ok_iff, pure_ok_iff, Prod.mk.injEq] at h
  obtain ⟨⟨p', b⟩, hb, c, hc, e, he, -, rfl⟩ := h
  have hu : e.Undocumented := undocumented_withChoices
    (undocumented_withDescription (Declaration.undocumented_of_parseSingle hb) hc) he
  exact hu

end ArgumentOptions

end SlashCommands
