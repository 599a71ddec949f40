import SlashCommands.Proofs.AcceptedInvocation
import SlashCommands.Proofs.BuilderRun
import SlashCommands.Proofs.DismissedEvents
import SlashCommands.Proofs.RoutedEntry

/-!
# Which handler is run

An invocation of a command with handlers by key is handled by the entry that is meant for its path,
and where none is meant it is over with nothing said (`Machine.dispatch_routed`). The order in which
the entries are given makes no difference, neither to whether the command can be sealed nor to what
it runs (`Builder.finish_perm`).
-/

namespace SlashCommands

open Checked

variable {η κ ν : Type}

/-! ## Sealing -/

namespace Builder

variable {name description : String} {es : List (Edit κ)} {routes routes' : List (String × η)}
  {s s' : Spec η κ}

/-- With handlers by key a command is sealed if it can be prepared and the entries make a table. -/
theorem finish_actions_ok_iff {b : Builder κ} :
    (b.finish (.actions routes)).2 = .ok s ↔ b.fault = none ∧ ∃ d callbacks table,
      b.draft.prepare = .ok (d, callbacks)
        ∧ routes.foldlM (Draft.addRoute d.tree) .empty = .ok table
        ∧ s = d.toSpec callbacks (.routes table) := by
  simp only [finish_ok_iff, Draft.finish_ok_iff, Draft.resolveHandler, bind_ok_iff, pure_ok_iff]
  refine and_congr_right fun _ => ?_
  constructor
  · rintro ⟨d, callbacks, handler, hp, ⟨table, ht, rfl⟩, hs⟩
    exact ⟨d, callbacks, table, hp, ht, hs⟩
  · rintro ⟨d, callbacks, table, hp, ht, hs⟩
    exact ⟨d, callbacks, _, hp, ⟨table, ht, rfl⟩, hs⟩

theorem distinct_of_finish
    (h : (((new name description).edits es).finish (.actions routes)).2 = .ok s) :
    (s.tree.children.map Child.name).Nodup := by
  obtain ⟨hf, hd⟩ := finish_ok_iff.1 h
  exact (Draft.finish_sound (edits_sound (new_sound name description) es hf) hd).tree.distinct

/-- The table of a sealed command, as it was made of the entries. -/
theorem exists_table_of_finish
    (h : (((new name description).edits es).finish (.actions routes)).2 = .ok s) :
    ∃ table, s.handler = .routes table
      ∧ routes.foldlM (Draft.addRoute s.tree) .empty = .ok table := by
  obtain ⟨-, d, callbacks, table, -, ht, rfl⟩ := finish_actions_ok_iff.1 h
  exact ⟨table, rfl, ht⟩

theorem resolve_eq_some_iff
    (h : (((new name description).edits es).finish (.actions routes)).2 = .ok s) {p : Path}
    {a : η} : s.handler.resolve p = some a ↔ ∃ e, Routed s.tree routes p e ∧ e.2 = a := by
  obtain ⟨table, hh, ht⟩ := exists_table_of_finish h
  rw [hh]
  exact RouteTable.resolve_eq_some_iff (distinct_of_finish h) ht

/-- The entries in another order make a command that differs in nothing but the table, and finds the
same handlers. -/
theorem finish_perm (hp : routes.Perm routes')
    (h : (((new name description).edits es).finish (.actions routes)).2 = .ok s) :
    ∃ s', (((new name description).edits es).finish (.actions routes')).2 = .ok s'
      ∧ s' = { s with handler := s'.handler }
      ∧ ∀ p, s'.handler.resolve p = s.handler.resolve p := by
  obtain ⟨hf, d, callbacks, table, hd, ht, rfl⟩ := finish_actions_ok_iff.1 h
  obtain ⟨table', ht'⟩ := Draft.exists_table_iff.2 ((Draft.exists_table_iff.1 ⟨table, ht⟩).perm hp)
  have h' : (((new name description).edits es).finish (.actions routes')).2
      = .ok (d.toSpec callbacks (.routes table')) :=
    finish_actions_ok_iff.2 ⟨hf, d, callbacks, table', hd, ht', rfl⟩
  refine ⟨_, h', rfl, fun p => Option.ext fun a => ?_⟩
  rw [resolve_eq_some_iff h, resolve_eq_some_iff h']
  refine exists_congr fun e => and_congr_left fun _ => ?_
  exact ⟨fun he => he.perm hp.symm, fun he => he.perm hp⟩

end Builder

/-! ## Events -/

theorem Router.plan_of_resolve_none {router : Router} {registry : CommandRegistry ν}
    {i : Invocation} {s : Command ν} (hs : registry.get? i.command = some s)
    (ho : ∀ g, s.Open i g) (hr : s.handler.resolve i.path = none) :
    router.plan registry (.invocation i) = .unhandled := by
  simp only [plan, planInvocation, hs, Spec.shutGate?_eq_none_iff.2 ho, hr]

namespace Machine

variable {m : Machine ν} {i : Invocation} {transport : Transport}

/-- The invocation is handled by this program, whether somebody waits for its outcome or it is left
to the machine, with whatever happens meanwhile. If somebody waits, the program is given up only if
it sleeps till its time is up; else it is given up only once its time is up. -/
structure Runs (m : Machine ν) (i : Invocation) (transport : Transport) (program : Program ν) :
    Prop where
  planned : ∃ command, m.router.plan m.registry (.invocation i) = .handle command i.path program
  awaited : ∃ y ending, Handled (.new i transport) program (m.router.TooSlow program m.clock
      (m.dispatchOver (.invocation i) transport).clock) y ending
    ∧ (m.dispatchOver (.invocation i) transport).Ended m.deliveries.length y
      (m.dispatchOver (.invocation i) transport).clock ending
  posted : ∀ id, m.Pending id (.invocation i) transport → ∀ n, m.Reaches n →
    ∃ y ending clock, Handled (.new i transport) program (m.router.Late m.clock clock) y ending
      ∧ n.settle.Ended id y clock ending

theorem runs_of_plan {command : String} {program : Program ν} (hm : m.Reachable)
    (hp : m.router.plan m.registry (.invocation i) = .handle command i.path program) :
    m.Runs i transport program where
  planned := ⟨command, hp⟩
  awaited := dispatchOver_ended hm.sound hp transport
  posted id hpending n hr := by
    obtain ⟨d, hd⟩ := hpending.attended hm.sound hp
    have hend := Reaches.attended_or_ended (hr.trans (reaches_settle n)) hm.sound
      (Exchange.faithful_new i transport) hd
    have hsome := hpending.settle_outcome hm hr
    refine hend.resolve_left fun ⟨e, he⟩ => ?_
    rw [he.outcome_eq_none] at hsome
    cases hsome

/-- A command with handlers by key. At most one entry is meant for a path, and for a path that is
not declared it is no subcommand's own. Whatever state the machine is in, an invocation that all
gates are open for is handled by the entry that is meant for its path; if none is meant, nothing is
run and nothing sent. And whether there is such a command, and what it runs, has nothing to do with
the order of the entries. -/
theorem dispatch_routed (name description : String) (es : List (Edit (Completion ν)))
    (routes : List (String × Action ν)) :
    (∀ s, (((Builder.new name description).edits es).finish (.actions routes)).2 = .ok s →
      (∀ p e, Routed s.tree routes p e → (∀ f, Routed s.tree routes p f → f = e)
        ∧ (s.tree.contains p = false → ∀ q, ¬ IsOwnKey s.tree q e.1))
      ∧ ∀ m : Machine ν, m.Reachable → ∀ i, m.registry.get? i.command = some s →
        (∀ g, s.Open i g) → ∀ transport,
          (∀ e, Routed s.tree routes i.path e → m.Runs i transport (e.2 i))
          ∧ ((∀ e, ¬ Routed s.tree routes i.path e) →
            m.Dismisses (.invocation i) transport .unhandled fun _ => True))
    ∧ ∀ routes', routes.Perm routes' →
      (((Builder.new name description).edits es).finish (.actions routes)).2.isOk
        = (((Builder.new name description).edits es).finish (.actions routes')).2.isOk
      ∧ ∀ s s', (((Builder.new name description).edits es).finish (.actions routes)).2 = .ok s →
        (((Builder.new name description).edits es).finish (.actions routes')).2 = .ok s' →
        s' = { s with handler := s'.handler }
          ∧ ∀ p, s'.handler.resolve p = s.handler.resolve p := by
  refine ⟨fun s hs => ⟨fun p e he => ?_, fun m hm i hi ho transport => ?_⟩, fun routes' hp => ?_⟩
  · obtain ⟨table, -, ht⟩ := Builder.exists_table_of_finish hs
    have hnames := Builder.distinct_of_finish hs
    exact ⟨fun f hf => hf.eq_of_routed hnames (Draft.exists_table_iff.1 ⟨table, ht⟩).distinct he,
      fun hc => he.not_own hnames hc⟩
  · refine ⟨fun e he => ?_, fun hnone => ?_⟩
    · have hr : s.handler.resolve i.path = some e.2 :=
        (Builder.resolve_eq_some_iff hs).2 ⟨e, he, rfl⟩
      exact runs_of_plan hm (Router.plan_of_resolve hi ho hr)
    · have hr : s.handler.resolve i.path = none := by
        refine Option.eq_none_iff_forall_ne_some.2 fun a ha => ?_
        obtain ⟨e, he, -⟩ := (Builder.resolve_eq_some_iff hs).1 ha
        exact hnone e he
      have hp : m.router.plan m.registry (.invocation i) = .unhandled :=
        Router.plan_of_resolve_none hi ho hr
      exact dismisses_of_known hm (by rw [hp, Plan.dismissal?]) (by simp [hp]) transport
  · rcases h : (((Builder.new name description).edits es).finish (.actions routes)).2
      with fault | s
    · rcases h' : (((Builder.new name description).edits es).finish (.actions routes')).2
        with fault' | s'
      · exact ⟨rfl, by rintro s s' ⟨⟩⟩
      · obtain ⟨s, hs, -⟩ := Builder.finish_perm hp.symm h'
        rw [h] at hs
        cases hs
    · obtain ⟨s', h', he, hr⟩ := Builder.finish_perm hp h
      rw [h']
      refine ⟨rfl, ?_⟩
      rintro _ _ ⟨⟩ ⟨⟩
      exact ⟨he, hr⟩

/-- Members are added in a subgroup, and listed outside of it. -/
def teamEdits : List (Edit (Completion Unit)) :=
  [.subgroup "member" "Members", .subcommand "member add" "Adds one", .subcommand "list" "All"]

/-- The own route of a subcommand makes a note. -/
def memberRoute : String × Action Unit :=
  ("member [add: a user]", fun _ => ⟨[.note fun _ => ()], .done []⟩)

def teamRoutes : List (String × Action Unit) :=
  [("$default", fun _ => .finished), ("member", fun _ => .finished), memberRoute]

def memberUse : Invocation :=
  ((Invocation.new "team").extend (.subgroup "member")).extend (.subcommand "add")

def teamMachine (s : Command Unit) : Machine Unit :=
  .new (.ofSettings { Settings.default with timeLimit := some 1000 }) (Registry.empty.append s)

/-- The route has time enough, so it comes to its own end. -/
theorem teamRoutes_dispatch_routed :
    ∃ s, (((Builder.new "team" "Teams").edits teamEdits).finish (.actions teamRoutes)).2 = .ok s
      ∧ ∀ transport, (teamMachine s).Runs memberUse transport (memberRoute.2 memberUse)
        ∧ ∃ y, ((teamMachine s).dispatchOver (.invocation memberUse) transport).Ended 0 y
          ((teamMachine s).dispatchOver (.invocation memberUse) transport).clock (.done []) := by
  have hcheck : ((((Builder.new "team" "Teams").edits teamEdits).finish
      (.actions teamRoutes)).2.toOption.any fun s =>
        s.name == "team" && ((s.shutGate? memberUse).isNone && s.tree.contains memberUse.path))
      = true := by
    decide +kernel
  rcases hs : (((Builder.new "team" "Teams").edits teamEdits).finish (.actions teamRoutes)).2
    with fault | s
  · rw [hs] at hcheck
    cases hcheck
  rw [hs] at hcheck
  simp only [Except.toOption, Option.any_some, Bool.and_eq_true, beq_iff_eq,
    Option.isNone_iff_eq_none] at hcheck
  obtain ⟨hn, hg, hc⟩ := hcheck
  have hown : Routed s.tree teamRoutes memberUse.path memberRoute :=
    .own (List.mem_cons_of_mem _ (List.mem_cons_of_mem _ List.mem_cons_self))
      ⟨rfl, hc, by decide +kernel, by decide +kernel⟩
  have hfound : (Registry.empty.append s).get? memberUse.command = some s :=
    (Registry.empty_indexed.append rfl).get?_eq_some_iff.2 ⟨List.mem_singleton.2 rfl, hn⟩
  refine ⟨s, rfl, fun transport => ?_⟩
  have hruns : (teamMachine s).Runs memberUse transport (memberRoute.2 memberUse) :=
    (((dispatch_routed "team" "Teams" teamEdits teamRoutes).1 s hs).2 _ ⟨_, _, .refl⟩ memberUse
      hfound (Spec.shutGate?_eq_none_iff.1 hg) transport).1 memberRoute hown
  obtain ⟨y, ending, hh, he⟩ := hruns.awaited
  have hquick : ∀ limit, (teamMachine s).router.timeLimit = some limit →
      Act.duration (memberRoute.2 memberUse).acts < limit := by
    rintro _ ⟨⟩
    decide
  refine ⟨hruns, y, ?_⟩
  cases hh.in_time hquick with
  | finished => exact he
  | refused history h =>
    -- no act of the route is a call
    have hmem := h.isSuffix.subset List.mem_cons_self
    simp [memberRoute] at hmem
  | late hl => exact hl.elim

end Machine

end SlashCommands
