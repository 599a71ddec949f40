import SlashCommands.Proofs.BuilderRun
import SlashCommands.Proofs.RegistryIndex
import SlashCommands.Session

/-!
# The first fault of a command

A builder stumbles over the first thing that is wrong: the name of the command, or a call that fails
on what the calls before it have made (`Stumbles`). It then reports that fault whatever is called
later (`Builder.finish_of_stumbles`), and where it does not stumble it goes on with a draft
(`Builder.stumbles_iff`). A command that cannot be finished leaves the session as it was, and one
that can be is all that its registry gains (`Registry.Gained`); `Session.command_first_fault` says
both of whole sessions.
-/

namespace SlashCommands

open Checked

variable {κ η ν : Type}

/-! ## Stumbling -/

namespace Checked

/-- A checked fold fails with the fault of the first step that fails. -/
theorem foldlM_error_iff {α β : Type} {f : β → α → Checked β} {fault : Fault} :
    ∀ {xs : List α} {b : β}, xs.foldlM f b = .error fault ↔
      ∃ before x after c, xs = before ++ x :: after ∧ before.foldlM f b = .ok c
        ∧ f c x = .error fault
  | [], b => by
    simp [pure, Except.pure]
  | x :: xs, b => by
    rw [List.foldlM_cons]
    constructor
    · intro h
      rcases hc : f b x with found | c
      · rw [hc] at h
        cases h
        exact ⟨[], x, xs, b, rfl, rfl, hc⟩
      · rw [hc] at h
        obtain ⟨before, y, after, e, rfl, hb, he⟩ := foldlM_error_iff.1 h
        refine ⟨x :: before, y, after, e, rfl, ?_, he⟩
        rw [List.foldlM_cons, hc]
        exact hb
    · rintro ⟨before, y, after, e, hxs, hb, he⟩
      rcases before with _ | ⟨z, before⟩
      · obtain ⟨rfl, rfl⟩ := List.cons.inj hxs
        rw [List.foldlM_nil, pure_ok_iff] at hb
        rw [hb, he]
        rfl
      · obtain ⟨rfl, rfl⟩ := List.cons.inj hxs
        rw [List.foldlM_cons, bind_ok_iff] at hb
        obtain ⟨c, hc, hb⟩ := hb
        rw [hc]
        exact foldlM_error_iff.2 ⟨before, y, after, e, rfl, hb, he⟩

end Checked

/-- The first thing that is wrong with a chain of calls, and the fault that it is. What is called
after that has no part in it. -/
inductive Stumbles (name description : String) : List (Edit κ) → Fault → Prop
  | name {es : List (Edit κ)} {fault : Fault}
    (h : Check.slashName name "command" = .error fault) : Stumbles name description es fault
  | call {before : List (Edit κ)} {e : Edit κ} {after : List (Edit κ)} {d : Draft κ}
    {fault : Fault} (hn : Named name)
    (hb : before.foldlM Edit.apply (.new name description) = .ok d)
    (he : e.apply d = .error fault) : Stumbles name description (before ++ e :: after) fault

namespace Builder

variable {name description : String} {es : List (Edit κ)} {fault : Fault}

/-- A builder stumbles exactly if it has a fault in the end, over that fault. -/
theorem stumbles_iff : Stumbles name description es fault ↔
    ((new name description).edits es).outcome = .error fault := by
  rw [outcome_chain]
  constructor
  · rintro (h | ⟨hn, hb, he⟩)
    · rw [h]
      rfl
    · rw [hn "command"]
      exact foldlM_error_iff.2 ⟨_, _, _, _, rfl, hb, he⟩
  · intro h
    rcases hn : Check.slashName name "command" with found | u
    · rw [hn] at h
      cases h
      exact .name hn
    · rw [hn] at h
      obtain ⟨before, e, after, d, rfl, hb, he⟩ := foldlM_error_iff.1 h
      exact .call (Check.slashName_ok_iff.1 hn) hb he

theorem finish_of_stumbles (h : Stumbles name description es fault) (terminal : Draft.Terminal η) :
    ((new name description).edits es).finish terminal = ([], .error fault) := by
  rw [finish_eq, stumbles_iff.1 h]

end Builder

/-! ## What a registry gains -/

/-- A command was added to a registry, and nothing else in it has changed. -/
structure Registry.Gained (before after : Registry η κ) (s : Spec η κ) : Prop where
  fresh : before.get? s.name = none
  specs : after.specs = before.specs ++ [s]
  found : after.get? s.name = some s
  kept : ∀ name t, before.get? name = some t → after.get? name = some t
  index : ∀ name, name ≠ s.name → after.index.find? name = before.index.find? name
  state : after.state = before.state
  debugGuilds : after.debugGuilds = before.debugGuilds
  registrar : after.registrar = before.registrar
  runtime : after.runtime = before.runtime
  /-- A command that is added during the first phase waits for its end. -/
  queued : after.queued = before.queued ++ if before.state = .syncing then [s] else []

theorem Registry.gained_of_add {r r' : Registry η κ} {s : Spec η κ} {alone : Bool}
    (h : r.add s = .ok (r', alone)) : r.Gained r' s ∧ alone = (r.state == .ready) := by
  obtain ⟨hn, h⟩ := add_ok_iff.1 h
  have hnone : r.index.find? s.name = none := by
    rwa [SortedMap.contains, Option.isSome_eq_false_iff, Option.isNone_iff_eq_none] at hn
  -- In every state the command comes last, and its name is put in the index.
  have ha : r.Gained { r.append s with queued := r'.queued } s
      ↔ r'.queued = r.queued ++ if r.state = .syncing then [s] else [] := by
    refine ⟨fun h => h.queued, fun hq => ?_⟩
    refine ⟨?_, rfl, ?_, grows_append hn, fun name hne => ?_, rfl, rfl, rfl, rfl, hq⟩
    · rw [get?, hnone]
      rfl
    · simp [get?, Registry.append, SortedMap.find?_insert_self]
    · exact SortedMap.find?_insert_of_ne hne _ _
  rcases h with ⟨hs, rfl, rfl⟩ | ⟨hs, rfl, rfl⟩ | ⟨hs, rfl, rfl⟩
  · exact ⟨ha.2 (by simp [hs, Registry.append]), by simp [hs]⟩
  · exact ⟨ha.2 (by simp [hs]), by simp [hs]⟩
  · exact ⟨ha.2 (by simp [hs, Registry.append]), by simp [hs]⟩

/-- What a machine gains with a command: its registry does, and if the first phase is over, the
registration of that one command is under way. -/
structure Machine.Gained (m n : Machine ν) (s : Command ν) : Prop where
  registry : m.registry.Gained n.registry s
  rest : n = { m with
    registry := n.registry
    queue := m.queue ++ if m.registry.state = .ready
      then (n.registry.addition? s).toList.map .addition else [] }

theorem Machine.gained_of_add {m n : Machine ν} {s : Command ν} (h : m.add s = .ok n) :
    m.Gained n s := by
  simp only [add, bind_ok_iff, pure_ok_iff] at h
  obtain ⟨⟨r, alone⟩, hr, rfl⟩ := h
  obtain ⟨hg, rfl⟩ := Registry.gained_of_add hr
  by_cases hs : m.registry.state = .ready
  · rw [hs, beq_self_eq_true, if_pos rfl, addAlone]
    dsimp only
    rcases ha : r.addition? s with _ | a
    · exact ⟨hg, by simp [hs, ha]⟩
    · exact ⟨hg, by simp [hs, ha]⟩
  · rw [if_neg (by simpa using hs)]
    exact ⟨hg, by simp [hs]⟩

theorem Machine.add_error_iff {m : Machine ν} {s : Command ν} {fault : Fault} :
    m.add s = .error fault ↔
      m.registry.index.contains s.name = true ∧ fault = .duplicate "command" s.name := by
  rw [← Registry.add_error_iff, add]
  rcases m.registry.add s with found | ⟨r, alone⟩
  · change Except.error found = Except.error fault ↔ Except.error found = Except.error fault
    simp only [Except.error.injEq]
  · simp [bind, Except.bind, pure, Except.pure]

/-! ## Whole sessions -/

namespace Session

variable {s : Session} {script : CommandScript} {spec : Command Hit} {fault : Fault}

theorem log_nil (s : Session) : s.log [] = s := by
  rw [log, List.append_nil]

theorem command_of_fault (h : script.build.2 = .error fault) :
    s.command script false = (s.log script.build.1, .error fault) := by
  rw [command]
  dsimp only
  rw [h]

theorem command_of_taken (h : script.build.2 = .ok spec)
    (ha : (s.log script.build.1).machine.add spec = .error fault) :
    s.command script false = (s.log script.build.1, .error fault) := by
  rw [command]
  dsimp only
  rw [h]
  simp only [Bool.false_eq_true, if_false, ha]

theorem command_of_added {m : Machine Hit} (h : script.build.2 = .ok spec)
    (ha : (s.log script.build.1).machine.add spec = .ok m) :
    s.command script false
      = ({ s with machine := m }, .ok (({ s with machine := m } : Session).describe spec)) := by
  rw [command]
  dsimp only
  rw [h]
  simp only [Bool.false_eq_true, if_false, ha]
  rfl

/-- Why a script makes no command: a fault while it is put together, one when it is sealed, or a
name that is taken. -/
inductive Fails (s : Session) (script : CommandScript) : Fault → Prop
  | stumbled {fault : Fault} (h : Stumbles script.name script.description script.edits fault) :
    Fails s script fault
  | unsealed {d : Draft (Completion Hit)} {fault : Fault}
    (hd : ((Builder.new script.name script.description).edits script.edits).outcome = .ok d)
    (h : (d.finish script.terminal).2 = .error fault) : Fails s script fault
  | taken {spec : Command Hit} (hb : script.build.2 = .ok spec)
    (h : s.machine.registry.index.contains script.name = true) :
    Fails s script (.duplicate "command" script.name)

theorem fails_of_build (h : script.build.2 = .error fault) : s.Fails script fault := by
  change (((Builder.new script.name script.description).edits script.edits).finish
    script.terminal).2 = .error fault at h
  rw [Builder.finish_eq] at h
  rcases ho : ((Builder.new script.name script.description).edits script.edits).outcome
    with found | d
  · rw [ho] at h
    cases h
    exact .stumbled (Builder.stumbles_iff.2 ho)
  · rw [ho] at h
    exact .unsealed ho h

/-- The command of a script: its first fault is what is reported, whatever is called later and
however it is to be handled. A command that cannot be finished, because of its first fault, when it
is sealed or because its name is taken, adds to the log at most: registry, queue and calls are as
they were. One that can be finished is found under its name, and is all that is gained. -/
theorem command_first_fault (s : Session) (script : CommandScript) :
    (∀ fault, Stumbles script.name script.description script.edits fault →
      s.command script false = (s, .error fault))
    ∧ (∀ fault, (s.command script false).2 = .error fault →
      s.Fails script fault ∧ (s.command script false).1 = s.log script.build.1)
    ∧ ∀ result, (s.command script false).2 = .ok result →
      ∃ spec, script.build.2 = .ok spec ∧ spec.name = script.name
        ∧ (s.log script.build.1).machine.Gained (s.command script false).1.machine spec
        ∧ (s.command script false).1 = { s with machine := (s.command script false).1.machine }
        ∧ result = (s.command script false).1.describe spec := by
  refine ⟨fun fault h => ?_, fun fault h => ?_, fun result h => ?_⟩
  · have hb : script.build = ([], .error fault) := by
      rw [CommandScript.build, Builder.finish_of_stumbles h]
      rfl
    rw [command_of_fault (congrArg Prod.snd hb), hb, log_nil]
  · rcases hb : script.build.2 with found | spec
    · rw [command_of_fault hb] at h ⊢
      cases h
      exact ⟨fails_of_build hb, rfl⟩
    · rcases ha : (s.log script.build.1).machine.add spec with found | m
      · rw [command_of_taken hb ha] at h ⊢
        cases h
        obtain ⟨ht, rfl⟩ := Machine.add_error_iff.1 ha
        rw [Builder.name_of_finish hb] at ht ⊢
        exact ⟨.taken hb ht, rfl⟩
      · rw [command_of_added hb ha] at h
        cases h
  · rcases hb : script.build.2 with found | spec
    · rw [command_of_fault hb] at h
      cases h
    · rcases ha : (s.log script.build.1).machine.add spec with found | m
      · rw [command_of_taken hb ha] at h
        cases h
      · rw [command_of_added hb ha] at h ⊢
        cases h
        exact ⟨spec, rfl, Builder.name_of_finish hb, Machine.gained_of_add ha, rfl, rfl⟩

/-- The second argument of one declaration cannot follow the first, which is in its place by then;
what is called afterwards would fail as well. -/
def halfDeclared : CommandScript where
  name := "role"
  description := "Roles"
  edits := [.subgroup "user" "Users",
    .argument "user add [member: user] <reason: string>", .argument "<unclosed", .require "@"]
  terminal := .actions []

theorem halfDeclared_first_fault :
    ∃ fault, Stumbles halfDeclared.name halfDeclared.description halfDeclared.edits fault
      ∧ (Session.new .default .empty []).command halfDeclared false
        = (Session.new .default .empty [], .error fault) := by
  have hf : ((Builder.new halfDeclared.name halfDeclared.description).edits
      halfDeclared.edits).fault = some
        (.rule "required argument 'reason' cannot follow optional argument 'member'") := by
    decide +kernel
  have hs : Stumbles halfDeclared.name halfDeclared.description halfDeclared.edits _ :=
    Builder.stumbles_iff.2 (Builder.outcome_eq_error_iff.2 hf)
  exact ⟨_, hs, (command_first_fault _ halfDeclared).1 _ hs⟩

end Session

end SlashCommands
