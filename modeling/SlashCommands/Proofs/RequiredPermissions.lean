import SlashCommands.Proofs.BracketText
import SlashCommands.Proofs.BuilderRun
import SlashCommands.Proofs.Gates
import SlashCommands.Proofs.PayloadFaithful
import SlashCommands.Proofs.PermissionNames

/-!
# Required permissions

A requirement is a text, a permission in any of its spellings or a role. The permissions that a
command requires are registered with it as a number, one bit for each, and the platform shows the
command to whom it finds the bits at. The same permissions are asked for once more when the command
is used.

`Requirement.parse_ok_iff` says what a text is read as. `Builder.mem_permissions_edits` follows the
permissions through the calls on a builder, and `Permission.testBit_bitfield_iff` reads them off the
number again. `Builder.permissions_registered` puts the three together: what is registered and what
is enforced are the same.
-/

namespace SlashCommands

open Checked

/-! ## Reading a requirement -/

/-- How a requirement is meant: behind an at sign stands a role, and any other text is the
permission that has its letters and digits, or else a role. -/
inductive Requirement.Meant (raw : String) : Requirement → Prop
  | permission {p : Permission} (hat : (Text.trimmed raw).toList.head? ≠ some '@')
    (hname : asciiCapitals (Text.trimmed raw) = asciiCapitals p.name) : Meant raw (.permission p)
  | marked {reference : String} (hat : (Text.trimmed raw).toList = '@' :: reference.toList)
    (hblank : Text.isBlankText reference = false) : Meant raw (.role reference)
  | unmarked (hat : (Text.trimmed raw).toList.head? ≠ some '@')
    (hblank : Text.isBlankText raw = false)
    (hname : ∀ p : Permission, asciiCapitals (Text.trimmed raw) ≠ asciiCapitals p.name) :
    Meant raw (.role (Text.trimmed raw))

theorem isAlphanum_blankCodes : ∀ n ∈ blankCodes, (Char.ofNat n).isAlphanum = false := by
  decide

theorem isAlphanum_of_isBlank {c : Char} (h : Text.isBlank c = true) : c.isAlphanum = false := by
  have hcode := isAlphanum_blankCodes _ (mem_blankCodes h)
  rwa [Char.ofNat_toNat] at hcode

theorem asciiCapitals_of_isBlankText {text : String} (h : Text.isBlankText text = true) :
    asciiCapitals text = [] := by
  rw [asciiCapitals, List.map_eq_nil_iff, List.filter_eq_nil_iff]
  intro c hc
  simp [isAlphanum_of_isBlank (List.all_eq_true.1 h c hc)]

/-- A text that names a permission is not blank, since no name is without letters. -/
theorem Permission.not_blank_of_ofText? {text : String} {p : Permission}
    (h : ofText? text = some p) : Text.isBlankText text = false := by
  by_contra hblank
  rw [ofText?_eq_some_iff, asciiCapitals_of_isBlankText (by simpa using hblank)] at h
  exact p.asciiCapitals_name_ne_nil h.symm

namespace Requirement

variable {raw : String} {r : Requirement}

theorem parse_of_marked {rest : List Char} (h : (Text.trimmed raw).toList = '@' :: rest) :
    parse raw = .ok r ↔
      Text.isBlankText (String.ofList rest) = false ∧ .role (String.ofList rest) = r := by
  have hblank : Text.isBlankText raw = false := by
    rw [← Text.isBlankText_trimmed, Text.isBlankText, h]
    rfl
  simp [parse, h, hblank]

theorem parse_of_unmarked (h : (Text.trimmed raw).toList.head? ≠ some '@') :
    parse raw = .ok r ↔ Text.isBlankText raw = false
      ∧ (match Permission.ofText? (Text.trimmed raw) with
        | some p => .permission p
        | none => .role (Text.trimmed raw)) = r := by
  simp only [parse, bind_ok_iff, exists_unit_ok_iff, Check.notBlank_ok_iff,
    Text.isBlankText_trimmed]
  refine and_congr_right fun _ => ?_
  split
  · rename_i rest hcs
    exact absurd (by rw [hcs]; rfl) h
  · rcases Permission.ofText? (Text.trimmed raw) with _ | p <;> simp

/-- A text is read as what it is meant as, and not at all if it is meant as nothing. -/
theorem parse_ok_iff : parse raw = .ok r ↔ Meant raw r := by
  by_cases hat : (Text.trimmed raw).toList.head? = some '@'
  · obtain ⟨rest, hrest⟩ := List.head?_eq_some_iff.1 hat
    rw [parse_of_marked hrest]
    constructor
    · rintro ⟨hblank, rfl⟩
      exact .marked (by rw [hrest, String.toList_ofList]) hblank
    · rintro (⟨hne, -⟩ | ⟨hmarked, hblank⟩ | ⟨hne, -, -⟩)
      · exact absurd hat hne
      · rw [hrest] at hmarked
        obtain rfl := (List.cons.inj hmarked).2
        rw [String.ofList_toList]
        exact ⟨hblank, rfl⟩
      · exact absurd hat hne
  · rw [parse_of_unmarked hat]
    constructor
    · rintro ⟨hblank, rfl⟩
      rcases hp : Permission.ofText? (Text.trimmed raw) with _ | p
      · exact .unmarked hat hblank (Permission.ofText?_eq_none_iff.1 hp)
      · exact .permission hat (Permission.ofText?_eq_some_iff.1 hp)
    · rintro (⟨-, hname⟩ | ⟨hmarked, -⟩ | ⟨-, hblank, hname⟩)
      · have hp := Permission.ofText?_eq_some_iff.2 hname
        refine ⟨?_, by rw [hp]⟩
        rw [← Text.isBlankText_trimmed]
        exact Permission.not_blank_of_ofText? hp
      · exact absurd (by rw [hmarked]; rfl) hat
      · exact ⟨hblank, by rw [Permission.ofText?_eq_none_iff.2 hname]⟩

end Requirement

/-! ## Collecting permissions -/

/-- What a checked fold gathers, if each step gathers what belongs to its element. -/
theorem Checked.gathered_foldlM_iff {α β : Type} {f : β → α → Checked β} {g : β → Prop}
    {p : α → Prop} (hf : ∀ b x c, f b x = .ok c → (g c ↔ g b ∨ p x)) :
    ∀ {xs : List α} {b c : β}, xs.foldlM f b = .ok c → (g c ↔ g b ∨ ∃ x ∈ xs, p x)
  | [], b, c, h => by
    rw [List.foldlM_nil, pure_ok_iff] at h
    simp [h]
  | x :: xs, b, c, h => by
    rw [List.foldlM_cons, bind_ok_iff] at h
    obtain ⟨d, hd, h⟩ := h
    rw [gathered_foldlM_iff hf h, hf b x d hd, or_assoc, List.exists_mem_cons_iff]

variable {κ η : Type}

/-- One of the calls is for a requirement that is read as the permission. -/
def Requires (es : List (Edit κ)) (p : Permission) : Prop :=
  ∃ raw, .require raw ∈ es ∧ Requirement.parse raw = .ok (.permission p)

namespace Edit

variable {d d' : Draft κ} {e : Edit κ} {p : Permission}

theorem permissions_of_apply (h : e.apply d = .ok d') (he : ∀ raw, e ≠ .require raw) :
    d'.permissions = d.permissions := by
  rcases apply_cases h with h | ⟨raw, _, rfl, -, -⟩ | ⟨raw, _, rfl, -, -⟩ | ⟨_, _, _, _, _, rfl⟩
  · exact (congrArg Draft.permissions h : _)
  · exact absurd rfl (he raw)
  · exact absurd rfl (he raw)
  · rfl

theorem mem_permissions_of_apply (h : e.apply d = .ok d') :
    p ∈ d'.permissions.toList ↔ p ∈ d.permissions.toList
      ∨ ∃ raw, .require raw = e ∧ Requirement.parse raw = .ok (.permission p) := by
  by_cases he : ∃ raw, .require raw = e
  · obtain ⟨raw, rfl⟩ := he
    simp only [require.injEq, exists_eq_left]
    rcases Draft.require_ok_iff.1 h with ⟨q, hq, rfl⟩ | ⟨reference, hr, rfl⟩
    · rw [hq, Except.ok.injEq, Requirement.permission.injEq, eq_comm (a := q)]
      exact SortedSet.mem_add
    · simp [hr]
  · rw [permissions_of_apply h fun raw hraw => he ⟨raw, hraw.symm⟩]
    exact (or_iff_left fun ⟨raw, hraw, _⟩ => he ⟨raw, hraw⟩).symm

end Edit

namespace Builder

variable {name description : String} {es : List (Edit κ)}

theorem mem_permissions_edits (h : ((new name description).edits es).fault = none)
    {p : Permission} :
    p ∈ ((new name description).edits es).draft.permissions.toList ↔ Requires es p := by
  have ho := outcome_eq_ok_iff.2 ⟨h, rfl⟩
  rw [outcome_chain] at ho
  obtain ⟨_, -, hes⟩ := bind_ok_iff.1 ho
  have hnone : p ∉ (Draft.new name description : Draft κ).permissions.toList := by
    rintro ⟨⟩
  rw [gathered_foldlM_iff (g := fun d : Draft κ => p ∈ d.permissions.toList)
    (fun _ _ _ he => Edit.mem_permissions_of_apply he) hes, or_iff_right hnone]
  constructor
  · rintro ⟨_, hm, raw, rfl, hraw⟩
    exact ⟨raw, hm, hraw⟩
  · rintro ⟨raw, hm, hraw⟩
    exact ⟨_, hm, raw, rfl, hraw⟩

/-- A command requires what was required on its builder, and its payload is compiled from that. -/
theorem permissions_of_finish {terminal : Draft.Terminal η} {s : Spec η κ}
    (h : (((new name description).edits es).finish terminal).2 = .ok s) :
    (∀ p, p ∈ s.permissions.toList ↔ Requires es p)
      ∧ s.payload.memberPermissions = if s.permissions.toList.isEmpty then none
        else some (toString (Permission.bitfield s.permissions.toList)) := by
  obtain ⟨documented, hd, hs⟩ := compiledFrom_of_finish h
  have hkept : documented.permissions = ((new name description).edits es).draft.permissions :=
    (congrArg Draft.permissions (Draft.onlyContent_applyDocs hd) : _)
  refine ⟨fun p => ?_, by rw [hs.payload]; rfl⟩
  rw [hs.permissions, hkept, mem_permissions_edits (finish_ok_iff.1 h).1]

end Builder

/-! ## The registered bitfield -/

namespace Permission

/-- The text is a number of 64 bits, in decimal, that has the bits of the permissions that are asked
for and no others. -/
def IsBitfield (asked : Permission → Prop) (text : String) : Prop :=
  ∃ n : Nat, text = toString n ∧ n < 2 ^ 64
    ∧ ∀ k, n.testBit k = true ↔ ∃ p, asked p ∧ p.index.val = k

theorem bitfield_lt (permissions : List Permission) : bitfield permissions < 2 ^ 64 := by
  refine Nat.lt_pow_two_of_testBit _ fun k hk => ?_
  by_contra hset
  obtain ⟨p, -, hplace⟩ := testBit_bitfield_iff.1 (by simpa using hset)
  have hsmall := p.index.isLt
  omega

theorem isBitfield_bitfield {permissions : List Permission} {asked : Permission → Prop}
    (h : ∀ p, p ∈ permissions ↔ asked p) : IsBitfield asked (toString (bitfield permissions)) :=
  ⟨_, rfl, bitfield_lt permissions, fun k => by simp only [testBit_bitfield_iff, h]⟩

end Permission

/-- Whom a registered bitfield lets use the command: administrators, and members who have each of
its bits. -/
def Member.HasBits (m : Member) (text : String) : Prop :=
  .administrator ∈ m.permissions.toList ∨ ∃ n : Nat, text = toString n
    ∧ ∀ k, n.testBit k = true → (Permission.bitfield m.permissions.toList).testBit k = true

theorem Member.hasBits_bitfield_iff {m : Member} {permissions : List Permission} :
    m.HasBits (toString (Permission.bitfield permissions)) ↔
      .administrator ∈ m.permissions.toList ∨ ∀ p ∈ permissions, p ∈ m.permissions.toList := by
  refine or_congr_right ⟨?_, fun hall => ⟨_, rfl, fun k hk => ?_⟩⟩
  · rintro ⟨n, htext, hbits⟩ p hp
    rw [← toString_nat_injective htext] at hbits
    exact Permission.testBit_bitfield.1 (hbits _ (Permission.testBit_bitfield.2 hp))
  · obtain ⟨p, hp, rfl⟩ := Permission.testBit_bitfield_iff.1 hk
    exact Permission.testBit_bitfield.2 (hall p hp)

namespace Builder

variable {μ ν : Type} {name description : String} {es : List (Edit κ)}
  {terminal : Draft.Terminal η} {s : Spec η κ}

theorem mem_memberPermissions_iff
    (h : (((new name description).edits es).finish terminal).2 = .ok s) {text : String} :
    text ∈ s.payload.memberPermissions ↔ s.permissions.toList ≠ []
      ∧ toString (Permission.bitfield s.permissions.toList) = text := by
  rw [(permissions_of_finish h).2, Option.mem_def]
  rcases s.permissions.toList with _ | ⟨p, ps⟩ <;> simp

/-- A command is registered with a bitfield exactly if one of its requirements is read as a
permission. The bits are those of the permissions that are required of its users, and of no others:
what is registered opens the command to the same members as its gate. Neither roles nor the order or
the number of the calls make a difference to it. -/
theorem permissions_registered (h : (((new name description).edits es).finish terminal).2 = .ok s) :
    (∀ raw r, Requirement.parse raw = .ok r ↔ Requirement.Meant raw r)
      ∧ (∀ p q : Permission, asciiCapitals p.name = asciiCapitals q.name → p = q)
      ∧ (∀ p, p ∈ s.permissions.toList ↔ Requires es p)
      ∧ (s.payload.memberPermissions.isSome = true ↔ ∃ p, Requires es p)
      ∧ (∀ text ∈ s.payload.memberPermissions,
        Permission.IsBitfield (· ∈ s.permissions.toList) text)
      ∧ (∀ i, s.hasPermissions i = true ↔ ∀ text ∈ s.payload.memberPermissions,
        ∃ m, i.member = some m ∧ m.HasBits text)
      ∧ ∀ {name' description' : String} {es' : List (Edit μ)} {terminal' : Draft.Terminal ν}
          {s' : Spec ν μ},
        (((new name' description').edits es').finish terminal').2 = .ok s' →
          (∀ p, Requires es' p ↔ Requires es p) →
            s'.payload.memberPermissions = s.payload.memberPermissions := by
  have hset := (permissions_of_finish h).1
  refine ⟨fun _ _ => Requirement.parse_ok_iff, Permission.asciiCapitals_name_injective, hset, ?_,
    fun text htext => ?_, fun i => ?_, fun {_ _ _ _ s'} h' hsame => ?_⟩
  · simp only [Option.isSome_iff_exists, ← Option.mem_def, mem_memberPermissions_iff h,
      exists_and_left, exists_eq', and_true, ← hset]
    exact ⟨List.exists_mem_of_ne_nil _, fun ⟨_, hp⟩ => List.ne_nil_of_mem hp⟩
  · obtain ⟨-, rfl⟩ := (mem_memberPermissions_iff h).1 htext
    exact Permission.isBitfield_bitfield fun _ => .rfl
  · simp only [mem_memberPermissions_iff h, Spec.hasPermissions_iff, Spec.Open]
    constructor
    · rintro hopen text ⟨hne, rfl⟩
      obtain ⟨m, hm, hall⟩ := hopen.resolve_left hne
      exact ⟨m, hm, Member.hasBits_bitfield_iff.2 hall⟩
    · intro hbits
      refine or_iff_not_imp_left.2 fun hne => ?_
      obtain ⟨m, hm, hall⟩ := hbits _ ⟨hne, rfl⟩
      exact ⟨m, hm, Member.hasBits_bitfield_iff.1 hall⟩
  · have heq : s'.permissions = s.permissions := SortedSet.eq_of_mem_iff fun p => by
      rw [(permissions_of_finish h').1, hsame, hset]
    rw [(permissions_of_finish h').2, (permissions_of_finish h).2, heq]

/-- Two permissions are required, one of them twice, and four roles. -/
def guardEdits : List (Edit Unit) :=
  [.require " manage guild ", .require "@MANAGE_ROLES", .require "Kick-Members", .require "42",
    .require "KICK_MEMBERS", .require "Moderator", .require "Administrators"]

theorem guardEdits_permissions_registered :
    ∃ s, (((new "guard" "Guards").edits guardEdits).finish (.action ())).2 = .ok s
      ∧ s.payload.memberPermissions = some "34"
      ∧ Permission.IsBitfield (· ∈ s.permissions.toList) "34" := by
  have h : (((new "guard" "Guards").edits guardEdits).finish (.action ())).2.toOption.bind
      (fun s => s.payload.memberPermissions) = some "34" := by
    decide +kernel
  obtain ⟨s, hs, htext⟩ := Option.bind_eq_some_iff.1 h
  rw [toOption_eq_some_iff] at hs
  exact ⟨s, hs, htext, (permissions_registered (μ := Unit) (ν := Unit) hs).2.2.2.2.1 _ htext⟩

end Builder

end SlashCommands
