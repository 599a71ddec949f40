import SlashCommands.Builder
import SlashCommands.Machine
import SlashCommands.Scripted

/-!
# Sessions

A session drives one machine from outside, step by step, with scripted handlers and a scripted
registrar. What happened during a step (notes, requests to the registrar, log entries) is collected
and can be taken out after it.
-/

namespace SlashCommands

/-- A command to be built with scripted handlers. -/
structure CommandScript where
  name : String
  description : String
  edits : List (Edit (Completion Hit))
  terminal : Draft.Terminal (Action Hit)

/-- The sealed command, with the warnings of its sealing. -/
def CommandScript.build (script : CommandScript) : List LogEntry × Checked (Command Hit) :=
  let (missing, result) :=
    ((Builder.new script.name script.description).edits script.edits).finish script.terminal
  (missing.map (.callbackMissing script.name), result)

/-- What is known of a command that was just sealed. -/
structure SealedCommand where
  name : String
  targets : List String
  isGlobal : Bool

/-- What a registrar sees: requests, and commands that are sealed while it works. -/
inductive RegistrarRecord
  | request (call : RegistrarCall)
  | sealedMeanwhile (result : Checked SealedCommand) (state : RegistryState)

/-- What happened in one step. -/
structure Happenings where
  hits : List Hit
  records : List RegistrarRecord
  logs : List LogEntry

/-- A router at work, and what has been seen of it so far. -/
structure Session where
  machine : Machine Hit
  registrar : Registrar
  /-- What is sealed while the first scope is being set. -/
  meanwhile : List CommandScript
  records : List RegistrarRecord
  /-- The deliveries whose notices nobody waited for, each with the number of messages seen so
  far. -/
  unflushed : List (Nat × Nat)

/-- The answer to an invocation. -/
structure Dispatched where
  outcome : Outcome
  sent : List Message
  elapsed : Nat

/-- What followed an answer until no notice was left. -/
structure Aftermath where
  sent : List Message
  elapsed : Nat
  state : ReplyState

/-- The run of a started program. -/
structure Started where
  report : SyncReport
  /-- Whether it was still running before it was shut down. -/
  running : Option Bool
  sent : List (List Message)

namespace Session

/-- A session before the first command. -/
def new (settings : Settings) (registrar : RegistrarScript) (meanwhile : List CommandScript) :
    Session where
  machine := .new (.ofSettings settings)
    ((Registry.empty : CommandRegistry Hit).addDebugGuilds settings.debugGuilds)
  registrar := registrar.toRegistrar
  meanwhile := meanwhile
  records := []
  unflushed := []

/-- Moves the requests of the machine to the records. -/
def collect (s : Session) : Session :=
  { s with
    records := s.records ++ s.machine.calls.map .request
    machine := { s.machine with calls := [] } }

/-- Takes out what happened since the last time. -/
def take (s : Session) : Session × Happenings :=
  let s := s.collect
  ({ s with records := [], machine := { s.machine with notes := [], logs := [] } },
    ⟨s.machine.notes, s.records, s.machine.logs⟩)

/-- Adds entries to the log. -/
def log (s : Session) (entries : List LogEntry) : Session :=
  { s with machine := { s.machine with logs := s.machine.logs ++ entries } }

/-- What is told of a command that was sealed. -/
def describe (s : Session) (spec : Command Hit) : SealedCommand :=
  ⟨spec.name, (s.machine.registry.targets spec).toList, spec.isGlobal⟩

/-- Builds a command and adds it to the registry, unless it is to stand alone. -/
def command (s : Session) (script : CommandScript) (alone : Bool) :
    Session × Checked SealedCommand :=
  let (logs, result) := script.build
  let s := s.log logs
  match result with
  | .error fault => (s, .error fault)
  | .ok spec =>
    if alone then (s, .ok (s.describe spec))
    else match s.machine.add spec with
      | .error fault => (s, .error fault)
      | .ok machine =>
        let s := { s with machine }
        (s, .ok (s.describe spec))

/-- Names more debug guilds. -/
def addDebugGuilds (s : Session) (guilds : List String) : Session :=
  { s with machine :=
    { s.machine with registry := s.machine.registry.addDebugGuilds guilds } }

/-- Seals one command while the registrar is at work. -/
def sealMeanwhile (s : Session) (script : CommandScript) : Session :=
  let (s, result) := s.command script false
  { s with records := s.records ++ [.sealedMeanwhile result s.machine.registry.state] }

/-- Whether a bulk request is made. -/
def isSet : Activity → Bool
  | .call (.set ..) => true
  | _ => false

/-- Does what the first phase consists of, and seals the other commands inside its first bulk
request. -/
def act (s : Session) (activities : List Activity) : Session :=
  let before := activities.takeWhile fun a => !isSet a
  let after := activities.dropWhile fun a => !isSet a
  let s := ({ s with machine := s.machine.actAll before } : Session).collect
  if after.isEmpty then s
  else
    let s := s.meanwhile.foldl sealMeanwhile { s with meanwhile := [] }
    { s with machine := s.machine.actAll after }

/-- Registers everything there is. -/
def register (s : Session) (runtime : Option Runtime) :
    Except RegistryFault (Session × SyncReport) :=
  (s.machine.begin s.registrar runtime).map fun (machine, snapshot) =>
    let (activities, report) := snapshot.sync s.registrar
    let s := ({ s with machine } : Session).act activities
    ({ s with machine := s.machine.complete }, report)

/-- Waits for the commands that are being registered by themselves. -/
def flush (s : Session) : Session :=
  { s with machine := s.machine.flushAdditions }

/-- The messages of a delivery so far. -/
def sentBy (s : Session) (id : Nat) : List Message :=
  (s.machine.deliveries[id]?.map fun d => d.exchange.sent).getD []

/-- Handles one event until its outcome, and tells what was sent and how long it took. -/
def dispatch (s : Session) (event : Event) (refused : List Verb) : Session × Nat × Dispatched :=
  let id := s.machine.deliveries.length
  let start := s.machine.clock
  let s := { s with machine := s.machine.dispatch event refused }
  let outcome := (s.machine.deliveries[id]?.bind fun d => d.outcome).getD .ignored
  (s, id, ⟨outcome, s.sentBy id, s.machine.clock - start⟩)

/-- Waits for the notices and looks at what became of a dispatch. -/
def awaitNotice (s : Session) (id : Nat) (dispatched : Dispatched) : Session × Aftermath :=
  let start := s.machine.clock
  let s := { s with machine := s.machine.flushNotices }
  let state := (s.machine.deliveries[id]?.map fun d => d.exchange.state).getD .pending
  (s, ⟨(s.sentBy id).drop dispatched.sent.length,
    dispatched.elapsed + (s.machine.clock - start), state⟩)

/-- Leaves a notice to a later flush. -/
def leave (s : Session) (id : Nat) (dispatched : Dispatched) : Session :=
  { s with unflushed := s.unflushed ++ [(id, dispatched.sent.length)] }

/-- Waits for the notices that were left. -/
def flushNotices (s : Session) : Session × List (List Message) :=
  let s := { s with machine := s.machine.flushNotices }
  let notices := s.unflushed.map fun left => (s.sentBy left.1).drop left.2
  ({ s with unflushed := [] }, notices)

/-- Posts events one after the other, and tells which deliveries they became. -/
def postAll (s : Session) (events : List (Event × List Verb)) : Session × List Nat :=
  let first := s.machine.deliveries.length
  ({ s with machine := events.foldl (fun m e => m.post e.1 e.2) s.machine },
    (List.range events.length).map (first + ·))

/-- Hears events until there are no more, and waits for all that follows. -/
def listen (s : Session) (events : List (Event × List Verb)) : Session × List (List Message) :=
  let (s, ids) := s.postAll events
  let s := { s with machine := s.machine.settle.flushNotices }
  (s, ids.map s.sentBy)

/-- How long a started program is left alone before it is shut down, in milliseconds. -/
def patience : Nat := 3600000

/-- Registers everything, hears events in the background, and waits for the end. -/
def start (s : Session) (events : List (Event × List Verb)) (shutdown : Bool) :
    Except RegistryFault (Session × Started) :=
  (s.register (some 0)).map fun (s, report) =>
    let (s, ids) := s.postAll events
    let machine := if shutdown then s.machine.idle patience else s.machine
    let s := { s with machine := machine.settle.flushNotices.flushAdditions }
    (s, ⟨report, if shutdown then some true else none, ids.map s.sentBy⟩)

end Session

end SlashCommands
