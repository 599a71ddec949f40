import Mathlib.Data.List.Infix
import SlashCommands.Text.Blank

/-!
# Blank texts

Trimming takes away blanks only, so a text is blank exactly if it is so when trimmed
(`isBlankText_trimmed`), and blanks in front of a text do not matter to what its front is trimmed to
(`trimStart_append`). A text is left as it is if no blank stands at its ends (`trim_of_tight`), and
is such a text afterwards (`tight_trim`).
-/

namespace SlashCommands.Text

theorem all_dropWhile {α : Type} (p : α → Bool) :
    ∀ xs : List α, (xs.dropWhile p).all p = xs.all p
  | [] => rfl
  | x :: xs => by
    rcases h : p x
    · simp [h]
    · simp [h, all_dropWhile p xs]

theorem all_trim (cs : List Char) : (trim cs).all isBlank = cs.all isBlank := by
  rw [trim, trimEnd, trimStart, List.all_reverse, all_dropWhile, List.all_reverse, all_dropWhile]

@[simp]
theorem isBlankText_trimmed (text : String) : isBlankText (trimmed text) = isBlankText text := by
  rw [isBlankText, trimmed, String.toList_ofList, all_trim, isBlankText]

/-- A run of blanks, maybe none. -/
def Blanks (cs : List Char) : Prop :=
  ∀ c ∈ cs, isBlank c = true

theorem blanks_nil : Blanks [] := by
  simp [Blanks]

theorem blanks_space : Blanks [' '] := by
  simp [Blanks, isBlank]

theorem Blanks.append {cs ds : List Char} (hc : Blanks cs) (hd : Blanks ds) : Blanks (cs ++ ds) :=
  List.forall_mem_append.2 ⟨hc, hd⟩

theorem Blanks.not_mem {gap : List Char} (h : Blanks gap) {c : Char} (hc : isBlank c = false) :
    c ∉ gap := fun hmem => by
  rw [h c hmem] at hc
  cases hc

theorem blanks_takeWhile (cs : List Char) : Blanks (cs.takeWhile isBlank) :=
  List.all_eq_true.1 List.all_takeWhile

theorem trimStart_append {gap : List Char} (hgap : Blanks gap) (cs : List Char) :
    trimStart (gap ++ cs) = trimStart cs := by
  rw [trimStart, List.dropWhile_append_of_pos hgap, trimStart]

/-! ## No blanks at the ends -/

/-- No blank at either end. -/
structure Tight (cs : List Char) : Prop where
  head : ∀ c, cs.head? = some c → isBlank c = false
  last : ∀ c, cs.getLast? = some c → isBlank c = false

theorem tight_of_forall {cs : List Char} (h : ∀ c ∈ cs, isBlank c = false) : Tight cs :=
  ⟨fun c hc => h c (List.mem_of_mem_head? hc), fun c hc => h c (List.mem_of_mem_getLast? hc)⟩

theorem tight_of_ends {cs : List Char} (hh : cs.head?.any isBlank = false)
    (hl : cs.getLast?.any isBlank = false) : Tight cs :=
  ⟨fun c hc => by simpa [hc] using hh, fun c hc => by simpa [hc] using hl⟩

theorem Tight.append {cs ds : List Char} (hc : Tight cs) (hd : Tight ds) (hcs : cs ≠ [])
    (hds : ds ≠ []) (mid : List Char) : Tight (cs ++ (mid ++ ds)) where
  head := fun c h => hc.head c (by rwa [List.head?_append_of_ne_nil _ hcs] at h)
  last := fun c h => hd.last c (by
    rwa [List.getLast?_append_of_ne_nil _ (by simp [hds]),
      List.getLast?_append_of_ne_nil _ hds] at h)

theorem trimStart_eq_self {cs : List Char} (h : ∀ c, cs.head? = some c → isBlank c = false) :
    trimStart cs = cs := by
  cases cs with
  | nil => rfl
  | cons c cs => simp [trimStart, h c rfl]

theorem trim_of_tight {cs : List Char} (h : Tight cs) : trim cs = cs := by
  have hrev : trimStart cs.reverse = cs.reverse :=
    trimStart_eq_self fun c hc => h.last c (by rwa [List.head?_reverse] at hc)
  rw [trim, trimStart_eq_self h.head, trimEnd, ← trimStart, hrev, List.reverse_reverse]

theorem head?_dropWhile_isBlank {cs : List Char} {c : Char}
    (h : (cs.dropWhile isBlank).head? = some c) : isBlank c = false := by
  have hnot := List.head?_dropWhile_not isBlank cs
  rw [h] at hnot
  simpa using hnot

theorem trimEnd_isPrefix (cs : List Char) : trimEnd cs <+: cs := by
  have h := List.reverse_prefix.2 (List.dropWhile_suffix isBlank (l := cs.reverse))
  rwa [List.reverse_reverse] at h

theorem trim_isInfix (cs : List Char) : trim cs <:+: cs :=
  (trimEnd_isPrefix _).isInfix.trans (List.dropWhile_suffix isBlank).isInfix

theorem tight_trim (cs : List Char) : Tight (trim cs) where
  head := fun c h => by
    obtain ⟨rest, hrest⟩ := trimEnd_isPrefix (trimStart cs)
    have hc : (trimEnd (trimStart cs)).head? = some c := h
    have hstart : (trimStart cs).head? = some c := by
      rw [← hrest, List.head?_append, hc]
      rfl
    exact head?_dropWhile_isBlank hstart
  last := fun c h => by
    rw [trim, trimEnd, List.getLast?_reverse] at h
    exact head?_dropWhile_isBlank h

end SlashCommands.Text
