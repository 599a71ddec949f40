import SlashCommands.Demo
import SlashCommands.Script

/-!
# Replaying a script

The demo commands, driven by a script of events. Each event is over, with its notice sent, before
the next one begins.
-/

namespace SlashCommands.Demo

/-- What became of one event of a script. -/
structure Step where
  label : String
  sent : List Message
  outcome : Outcome

/-- The demo commands on a machine, ready to be used. -/
def machine (settings : Settings) : Checked (Machine Memory) :=
  (declare ((Registry.empty : CommandRegistry Memory).addDebugGuilds settings.debugGuilds)).map
    fun registry => .new (.ofSettings settings) registry

/-- Accepts every registration. Each debug guild is known by its name as well. -/
def registrar (settings : Settings) : Registrar where
  contexts := .ok (settings.debugGuilds.map fun id => ⟨id, id⟩)
  set := fun _ _ => .ok ()
  create := fun _ _ => .ok ()

/-- Handles one event and all that follows from it. -/
def step (m : Machine Memory) (place : Nat) (e : Event) : Machine Memory × Step :=
  let id := m.deliveries.length
  let m := (m.dispatch e []).flushNotices
  let d := m.deliveries[id]?
  (m, ⟨e.label place, (d.map fun d => d.exchange.sent).getD [],
    (d.bind fun d => d.outcome).getD .ignored⟩)

/-- Replays the events one after the other. A step is labelled by its place. -/
def stepsFrom (m : Machine Memory) (place : Nat) : List Event → List Step
  | [] => []
  | e :: events =>
    let (m, done) := step m place e
    done :: stepsFrom m (place + 1) events

/-- Registers the commands and handles the events in order. -/
def replay (settings : Settings) (m : Machine Memory) (events : List Event) :
    Except RegistryFault (List Step) :=
  (m.register (registrar settings) (some 0)).map fun (m, _) => stepsFrom m 1 events

/-! ## What is printed -/

/-- A line for a text sent, with the mark of the ones only its reader can see. -/
def replyLine (label verb : String) (reply : Reply) : String :=
  "[" ++ label ++ "] " ++ verb ++ (if reply.ephemeral then " (ephemeral)" else "") ++ ": "
    ++ reply.content

/-- A line for one message. -/
def messageLine (label : String) : Message → String
  | .reply reply => replyLine label "reply" reply
  | .edit reply => replyLine label "edit" reply
  | .followUp reply => replyLine label "follow-up" reply
  | .defer ephemeral =>
    "[" ++ label ++ "] deferred" ++ (if ephemeral then " (ephemeral)" else "")
  | .respond suggestions =>
    "[" ++ label ++ "] suggestions: " ++ ", ".intercalate (suggestions.map (·.name))

/-- The messages of a step and its outcome, a line each. -/
def Step.lines (s : Step) : List String :=
  s.sent.map (messageLine s.label) ++ ["[" ++ s.label ++ "] outcome: " ++ s.outcome.text]

/-- A line for one place of a command, with its arguments as declared. -/
def nodeLine (name : String) (node : Path × List Argument) : String :=
  "  /" ++ name ++ (if node.1.isRoot then "" else " " ++ node.1.text)
    ++ String.join (node.2.map fun a => " " ++ a.render)

/-- The line of a command and one for every node that can be used. -/
def commandLines (s : Command Memory) : List String :=
  let nodes := s.tree.nodes.filter fun node => !node.1.isRoot || s.tree.children.isEmpty
  ("/" ++ s.name ++ " - " ++ s.description) :: nodes.map (nodeLine s.name)

end SlashCommands.Demo
