import SlashCommands.Registry

/-!
# Registration

Both phases of registration as sequences of what they do: requests to the registrar and log entries.
`Snapshot.sync` registers many commands at once, scope by scope, and reports on it; `Addition.run`
registers one. A refused request never keeps the others from being made.
-/

namespace SlashCommands

/-- One thing that registering does: a request, or an entry of the log. -/
inductive Activity
  | call (call : RegistrarCall)
  | log (entry : LogEntry)

/-- One request of the first phase. -/
structure SyncBatch where
  scope : Scope
  commands : List String
  fault : Option ErrorChain
deriving DecidableEq

/-- What the first phase did. -/
structure SyncReport where
  batches : List SyncBatch
  /-- References that no guild matched. -/
  unknownGuilds : List String
  /-- Why the guilds are not known; then nothing was registered in guilds. -/
  contextFault : Option ErrorChain
deriving DecidableEq

namespace SyncReport

/-- The requests that were refused. -/
def failed (r : SyncReport) : List SyncBatch :=
  r.batches.filter fun b => b.fault.isSome

/-- Whether every command was registered wherever it belongs. -/
def isClean (r : SyncReport) : Bool :=
  r.failed.isEmpty && r.unknownGuilds.isEmpty && r.contextFault.isNone

end SyncReport

/-- The refusal, if a request was refused. -/
def refusal? : Except ErrorChain Unit → Option ErrorChain
  | .ok _ => none
  | .error cause => some cause

/-- The commands of each guild, and the references that no guild matched. -/
structure Placement (η κ : Type) where
  guilds : SortedMap String (List (Spec η κ))
  unknown : SortedSet String

namespace Placement

variable {η κ : Type}

/-- Places a command where one of its targets is. -/
def add (contexts : List GuildContext) (s : Spec η κ) (p : Placement η κ) (target : String) :
    Placement η κ :=
  match findGuild contexts target with
  | none => { p with unknown := SortedSet.add p.unknown target }
  | some id =>
    let there := (p.guilds.find? id).getD []
    if there.any fun t => t.name == s.name then p
    else { p with guilds := p.guilds.insert id (there ++ [s]) }

/-- Places the commands one after the other, each at all its targets. -/
def ofSpecs (contexts : List GuildContext) (debugGuilds : SortedSet String)
    (specs : List (Spec η κ)) : Placement η κ :=
  specs.foldl (fun p s => (s.targets debugGuilds).toList.foldl (add contexts s) p) ⟨.empty, .empty⟩

end Placement

namespace Snapshot

variable {η κ : Type}

/-- Sets the commands of one scope. -/
def submit (registrar : Registrar) (scope : Scope) (specs : List (Spec η κ)) :
    List Activity × SyncBatch :=
  let commands := specs.map (·.name)
  let payloads := specs.map (·.payload)
  let fault := refusal? (registrar.set scope payloads)
  (.call (.set scope payloads)
    :: (fault.map fun cause => Activity.log (.bulkFailed scope commands cause)).toList,
    ⟨scope, commands, fault⟩)

/-- The commands without any target. -/
def globalSpecs (s : Snapshot η κ) : List (Spec η κ) :=
  s.specs.filter fun t => (t.targets s.debugGuilds).isEmpty

/-- The commands with a target. -/
def guildSpecs (s : Snapshot η κ) : List (Spec η κ) :=
  s.specs.filter fun t => !(t.targets s.debugGuilds).isEmpty

/-- Registers the commands that go everywhere, in one request if there are any. -/
def syncGlobal (s : Snapshot η κ) (registrar : Registrar) : List (List Activity × SyncBatch) :=
  if s.globalSpecs.isEmpty then [] else [submit registrar .global s.globalSpecs]

/-- Registers the commands that go to guilds. -/
def syncGuilds (s : Snapshot η κ) (registrar : Registrar) : List Activity × SyncReport :=
  if s.guildSpecs.isEmpty then ([], ⟨[], [], none⟩)
  else match registrar.contexts with
    | .error cause =>
      ([.call .listContexts, .log (.guildsUnlisted cause)], ⟨[], [], some cause⟩)
    | .ok contexts =>
      let placement := Placement.ofSpecs contexts s.debugGuilds s.guildSpecs
      let unknown := placement.unknown.toList
      let batches := placement.guilds.entries.map fun e => submit registrar (.guild e.1) e.2
      (.call .listContexts :: unknown.map (fun guild => .log (.guildUnknown none guild))
        ++ batches.flatMap (·.1), ⟨batches.map (·.2), unknown, none⟩)

/-- Registers all commands, the global ones first. -/
def sync (s : Snapshot η κ) (registrar : Registrar) : List Activity × SyncReport :=
  let global := s.syncGlobal registrar
  let (activities, report) := s.syncGuilds registrar
  (global.flatMap (·.1) ++ activities,
    { report with batches := global.map (·.2) ++ report.batches })

end Snapshot

namespace Addition

variable {η κ : Type}

/-- Registers the command in one scope, and logs a refusal. -/
def create (a : Addition η κ) (scope : Scope) : List Activity :=
  .call (.create scope a.spec.payload)
    :: ((refusal? (a.registrar.create scope a.spec.payload)).map fun cause =>
      Activity.log (.additionFailed a.spec.name scope cause)).toList

/-- The guilds that the targets mean, and the targets that mean none. -/
def places (a : Addition η κ) (contexts : List GuildContext) : SortedSet String × List String :=
  let targets := a.targets.toList
  (SortedSet.ofList (targets.filterMap (findGuild contexts)),
    targets.filter fun target => (findGuild contexts target).isNone)

/-- Registers the command in each of its guilds, or globally if it has no target. -/
def run (a : Addition η κ) : List Activity :=
  if a.targets.isEmpty then a.create .global
  else match a.registrar.contexts with
    | .error cause => [.call .listContexts, .log (.additionUnlisted a.spec.name cause)]
    | .ok contexts =>
      let (guilds, unknown) := a.places contexts
      .call .listContexts
        :: unknown.map (fun guild => Activity.log (.guildUnknown (some a.spec.name) guild))
        ++ guilds.toList.flatMap fun id => a.create (.guild id)

end Addition

end SlashCommands
