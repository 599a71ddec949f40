import Mathlib.Data.List.Nodup
import Mathlib.Tactic.SplitIfs
import SlashCommands.Platform.Permission

/-!
# Names of permissions

A text names a permission by its ASCII letters and digits, in capitals (`asciiCapitals`). No two
permissions have the same there (`Permission.asciiCapitals_name_injective`), so the first one that
is found is the only one (`Permission.ofText?_eq_some_iff`), and every permission is read from its
own name (`Permission.ofText?_name`).
-/

namespace SlashCommands

/-- The ASCII letters and digits of a text, in capitals. -/
def asciiCapitals (text : String) : List Char :=
  (text.toList.filter Char.isAlphanum).map Char.toUpper

namespace Permission

theorem isAlphanum_eq (c : Char) :
    (Text.isAsciiLetter c || Text.isAsciiDigit c) = c.isAlphanum := by
  rw [Bool.eq_iff_iff]
  delta Char.isAlphanum Char.isAlpha Char.isUpper Char.isLower Char.isDigit
  simp [Text.isAsciiLetter, Text.isAsciiDigit, Char.le_def, or_comm]

theorem capital_eq (c : Char) :
    (if 'a' ≤ c && c ≤ 'z' then Char.ofNat (c.toNat - 32) else c) = c.toUpper := by
  delta Char.toUpper
  simp only [Bool.and_eq_true, decide_eq_true_eq, Char.le_def]
  split_ifs with h
  · have hlow : 97 ≤ c.toNat := h.1
    have hhigh : c.toNat ≤ 122 := h.2
    have hvalid : (c.toNat - 32).isValidChar := .inl (by omega)
    refine Char.ext (UInt32.toNat_inj.1 ?_)
    rw [Char.ofNat, dif_pos hvalid, UInt32.toNat_add]
    change c.toNat - 32 = (c.toNat + (65 - 97 : UInt32).toNat) % 2 ^ 32
    have hshift : (65 - 97 : UInt32).toNat = 2 ^ 32 - 32 := rfl
    omega
  · rfl

theorem squash_eq (text : String) : squash text = asciiCapitals text := by
  simp only [squash, asciiCapitals, isAlphanum_eq, capital_eq]

theorem mem_all (p : Permission) : p ∈ all :=
  List.mem_map_of_mem (List.mem_finRange p.index)

/-- No name is without letters, and no two have the same. -/
theorem nodup_names : ([] :: all.map fun p => asciiCapitals p.name).Nodup := by
  decide +kernel

theorem asciiCapitals_name_ne_nil (p : Permission) : asciiCapitals p.name ≠ [] := fun h =>
  (List.nodup_cons.1 nodup_names).1 (h ▸ List.mem_map_of_mem p.mem_all)

theorem asciiCapitals_name_injective :
    Function.Injective fun p : Permission => asciiCapitals p.name :=
  fun p q h => List.inj_on_of_nodup_map (List.nodup_cons.1 nodup_names).2 p.mem_all q.mem_all h

/-- At most one permission is named, so it does not matter which is looked for first. -/
theorem ofText?_eq_some_iff {text : String} {p : Permission} :
    ofText? text = some p ↔ asciiCapitals text = asciiCapitals p.name := by
  simp only [ofText?, Option.ite_none_left_eq_some, squash_eq]
  constructor
  · rintro ⟨-, h⟩
    have hname := List.find?_some h
    rw [beq_iff_eq] at hname
    exact hname.symm
  · intro h
    rw [h]
    obtain ⟨q, hq⟩ := Option.isSome_iff_exists.1 (List.find?_isSome
      (p := fun q => asciiCapitals q.name == asciiCapitals p.name).2 ⟨p, p.mem_all, by simp⟩)
    have hname := List.find?_some hq
    rw [beq_iff_eq] at hname
    exact ⟨by simpa using p.asciiCapitals_name_ne_nil, asciiCapitals_name_injective hname ▸ hq⟩

theorem ofText?_eq_none_iff {text : String} :
    ofText? text = none ↔ ∀ p : Permission, asciiCapitals text ≠ asciiCapitals p.name := by
  rw [Option.eq_none_iff_forall_ne_some]
  exact forall_congr' fun p => not_congr ofText?_eq_some_iff

theorem ofText?_name (p : Permission) : ofText? p.name = some p :=
  ofText?_eq_some_iff.2 rfl

end Permission

end SlashCommands
