import SlashCommands.Proofs.SortedEntries
import SlashCommands.Router

/-!
# Gates

What each gate asks of an invocation, in words of the sets and not of the checks (`Spec.Open`). The
gate that rejects is the first one in the order of the gates that is not open
(`Spec.shutGate?_eq_some_iff`), and what is planned for an invocation follows from it
(`Router.plan_of_firstShut`, `Router.plan_of_open`).
-/

namespace SlashCommands

/-- The gates that are looked at before. -/
def Gate.before : Gate → List Gate
  | channel => []
  | permissions => [channel]
  | roles => [channel, permissions]

/-- Being an administrator stands for every single permission. -/
theorem Member.all_hasPermission_iff {m : Member} {ps : List Permission} :
    ps.all m.hasPermission = true
      ↔ .administrator ∈ m.permissions.keys ∨ ∀ p ∈ ps, p ∈ m.permissions.keys := by
  simp only [List.all_eq_true, hasPermission, Bool.or_eq_true, SortedMap.contains_iff]
  by_cases ha : .administrator ∈ m.permissions.keys
  · simp [ha]
  · simp [ha]

namespace Spec

variable {η κ : Type} (s : Spec η κ) (i : Invocation)

/-- A gate is open if nothing is asked for there or the invocation has what is asked for. -/
def Open : Gate → Prop
  | .channel => s.channels.toList = [] ∨ ∃ c, i.channel = some c
      ∧ ∃ r ∈ s.channels.toList, c.id = r ∨ c.name ≠ "" ∧ c.name = r
  | .permissions => s.permissions.toList = [] ∨ ∃ m, i.member = some m
      ∧ (.administrator ∈ m.permissions.toList
        ∨ ∀ p ∈ s.permissions.toList, p ∈ m.permissions.toList)
  | .roles => s.roles.toList = [] ∨ ∃ m, i.member = some m
      ∧ ∀ r ∈ s.roles.toList, ∃ role ∈ m.roles, role.id = r ∨ role.name = r

/-- A gate is shut and the ones before it are open. -/
def FirstShut (g : Gate) : Prop :=
  ¬ s.Open i g ∧ ∀ earlier ∈ g.before, s.Open i earlier

variable {s i}

theorem inChannel_iff : s.inChannel i = true ↔ s.Open i .channel := by
  simp [inChannel, Open, SortedMap.isEmpty_iff, SortedSet.toList, ChannelRef.isMeant, matchesRef,
    Option.any_eq_true]

theorem hasPermissions_iff : s.hasPermissions i = true ↔ s.Open i .permissions := by
  simp only [hasPermissions, Open, Bool.or_eq_true, SortedMap.isEmpty_iff, SortedSet.toList,
    Option.any_eq_true, Member.all_hasPermission_iff]

theorem hasRoles_iff : s.hasRoles i = true ↔ s.Open i .roles := by
  simp [hasRoles, Open, SortedMap.isEmpty_iff, SortedSet.toList, Member.hasRole,
    Option.any_eq_true]

theorem shutGate?_eq_some_iff {g : Gate} : s.shutGate? i = some g ↔ s.FirstShut i g := by
  rw [shutGate?]
  rcases g <;>
    simp only [FirstShut, Gate.before, List.forall_mem_cons, ← inChannel_iff,
      ← hasPermissions_iff, ← hasRoles_iff] <;>
    rcases s.inChannel i <;> rcases s.hasPermissions i <;> rcases s.hasRoles i <;> simp

theorem shutGate?_eq_none_iff : s.shutGate? i = none ↔ ∀ g, s.Open i g := by
  have h : (∀ g, s.Open i g) ↔ s.Open i .channel ∧ s.Open i .permissions ∧ s.Open i .roles :=
    ⟨fun h => ⟨h _, h _, h _⟩, fun ⟨hc, hp, hr⟩ g => by cases g <;> assumption⟩
  rw [h, shutGate?, ← inChannel_iff, ← hasPermissions_iff, ← hasRoles_iff]
  rcases s.inChannel i <;> rcases s.hasPermissions i <;> rcases s.hasRoles i <;> simp

theorem exists_firstShut (h : ∃ g, ¬ s.Open i g) : ∃ g, s.FirstShut i g := by
  rcases hg : s.shutGate? i with _ | g
  · obtain ⟨g, hs⟩ := h
    exact absurd (shutGate?_eq_none_iff.1 hg g) hs
  · exact ⟨g, shutGate?_eq_some_iff.1 hg⟩

end Spec

namespace Router

variable {ν : Type} {router : Router} {registry : CommandRegistry ν} {i : Invocation}
  {s : Command ν}

theorem plan_of_firstShut {g : Gate} (hs : registry.get? i.command = some s)
    (hg : s.FirstShut i g) :
    router.plan registry (.invocation i)
      = .reject s.name g (router.messages.rejection g) := by
  simp only [plan, planInvocation, hs, Spec.shutGate?_eq_some_iff.2 hg]

/-- Where all gates are open, a handler is run or there is none. -/
theorem plan_of_open (hs : registry.get? i.command = some s) (ho : ∀ g, s.Open i g) :
    (∃ action : Action ν, router.plan registry (.invocation i) = .handle s.name i.path (action i))
      ∨ router.plan registry (.invocation i) = .unhandled := by
  simp only [plan, planInvocation, hs, Spec.shutGate?_eq_none_iff.2 ho]
  rcases s.handler.resolve i.path with _ | action
  · exact .inr rfl
  · exact .inl ⟨action, rfl⟩

theorem plan_of_resolve {action : Action ν} (hs : registry.get? i.command = some s)
    (ho : ∀ g, s.Open i g) (ha : s.handler.resolve i.path = some action) :
    router.plan registry (.invocation i) = .handle s.name i.path (action i) := by
  simp only [plan, planInvocation, hs, Spec.shutGate?_eq_none_iff.2 ho, ha]

end Router

end SlashCommands
