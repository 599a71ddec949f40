import SlashCommands.Log

/-!
# The registry

The registry holds every sealed command by name. Commands are registered with the platform in two
phases: all of them at once when the registry is initialized, then each further one by itself. A
command that is added while the first phase is under way waits in a queue. `add`, `begin`,
`complete` and `addition?` each happen at one moment; everything between them may be interleaved
with the rest of the program.
-/

namespace SlashCommands

/-- How far the first phase has come. -/
inductive RegistryState
  | uninitialized
  | syncing
  | ready
deriving DecidableEq, Inhabited

/-- The state as it is printed. -/
def RegistryState.name : RegistryState → String
  | uninitialized => "Uninitialized"
  | syncing => "Syncing"
  | ready => "Ready"

/-- Why the first phase cannot begin. -/
inductive RegistryFault
  | alreadyInitialized
  | noRuntime
deriving DecidableEq

/-- The fault in words. -/
def RegistryFault.message : RegistryFault → String
  | alreadyInitialized => "registry is already initialized"
  | noRuntime => "registry initialization must run inside a tokio runtime"

/-- What runs single additions in the background, by number. -/
abbrev Runtime := Nat

/-- The guilds a command goes to: its own and the debug guilds. -/
def Spec.targets {η κ : Type} (s : Spec η κ) (debugGuilds : SortedSet String) : SortedSet String :=
  SortedSet.addAll s.guilds debugGuilds.toList

/-- The sealed commands, and how far their registration has come. -/
structure Registry (η κ : Type) where
  /-- In the order of their sealing. -/
  specs : List (Spec η κ)
  /-- The place of each name in `specs`. -/
  index : SortedMap String Nat
  state : RegistryState
  /-- Every command is registered in these guilds as well. -/
  debugGuilds : SortedSet String
  queued : List (Spec η κ)
  registrar : Option Registrar
  runtime : Option Runtime

/-- What the first phase works on. -/
structure Snapshot (η κ : Type) where
  specs : List (Spec η κ)
  debugGuilds : SortedSet String

/-- The registration of a single command, ready to run. -/
structure Addition (η κ : Type) where
  spec : Spec η κ
  targets : SortedSet String
  registrar : Registrar
  runtime : Runtime

namespace Registry

variable {η κ : Type}

/-- A registry before anything was sealed. -/
def empty : Registry η κ where
  specs := []
  index := .empty
  state := .uninitialized
  debugGuilds := .empty
  queued := []
  registrar := none
  runtime := none

/-- The command of a name. -/
def get? (r : Registry η κ) (name : String) : Option (Spec η κ) :=
  (r.index.find? name).bind fun i => r.specs[i]?

/-- How many commands were sealed. -/
def size (r : Registry η κ) : Nat :=
  r.specs.length

/-- Names more debug guilds. What was registered before is left alone. -/
def addDebugGuilds (r : Registry η κ) (guilds : List String) : Registry η κ :=
  { r with debugGuilds := SortedSet.addAll r.debugGuilds guilds }

/-- The guilds a command goes to, with the debug guilds named so far. -/
def targets (r : Registry η κ) (s : Spec η κ) : SortedSet String :=
  s.targets r.debugGuilds

/-- Adds a sealed command. The flag tells whether it has to be registered by itself. -/
def add (r : Registry η κ) (s : Spec η κ) : Checked (Registry η κ × Bool) :=
  if r.index.contains s.name then .error (.duplicate "command" s.name)
  else
    let r := { r with
      index := r.index.insert s.name r.specs.length
      specs := r.specs ++ [s] }
    match r.state with
    | .uninitialized => .ok (r, false)
    | .syncing => .ok ({ r with queued := r.queued ++ [s] }, false)
    | .ready => .ok (r, true)

/-- Opens the first phase, once in the life of a registry. -/
def begin (r : Registry η κ) (registrar : Registrar) (runtime : Option Runtime) :
    Except RegistryFault (Registry η κ × Snapshot η κ) :=
  match runtime with
  | none => .error .noRuntime
  | some runtime =>
    if r.state = .uninitialized then
      .ok ({ r with state := .syncing, registrar := some registrar, runtime := some runtime },
        ⟨r.specs, r.debugGuilds⟩)
    else .error .alreadyInitialized

/-- Closes the first phase and hands out the commands that waited for it. -/
def complete (r : Registry η κ) : Registry η κ × List (Spec η κ) :=
  ({ r with state := .ready, queued := [] }, r.queued)

/-- The registration of a single command; there is none before the first phase was opened. -/
def addition? (r : Registry η κ) (s : Spec η κ) : Option (Addition η κ) :=
  match r.registrar, r.runtime with
  | some registrar, some runtime => some ⟨s, r.targets s, registrar, runtime⟩
  | _, _ => none

/-- What is shown of a registry. -/
def summary (r : Registry η κ) : String :=
  "Registry \x7b commands: " ++ toString r.size ++ ", state: " ++ r.state.name
    ++ ", debug_guilds: " ++ Text.quoteSet r.debugGuilds.toList ++ " \x7d"

end Registry

end SlashCommands
