import SlashCommands.Router

/-!
# Deliveries

A delivery is an event on its way. Three tasks take turns on it: the event's own task, the handler,
and the notice that tells the user of a failure. What becomes of the event is settled with its first
turn, by what the registry holds then (`planned`). Each turn (`poll`) looks at nothing but the
delivery with its plan, the clock and the notes made so far, and says which tasks are to run next,
now or later. The handler is left behind when its time is up.
-/

namespace SlashCommands

/-- The tasks that take turns on a delivery. -/
inductive Role
  | event
  | handler
  | notice
deriving DecidableEq

/-- How far a delivery has come. -/
inductive Stage (ν : Type)
  /-- The event's own task has not had a turn. -/
  | arrived
  /-- What the handler still has to do. -/
  | running (acts : List (Act ν)) (ending : Ending)
  /-- The handler is over, and the event's own task has not seen it. -/
  | ended (ending : Ending)
  /-- The handler failed and the user does not know yet; the flag tells whether the delay was waited
  for. -/
  | notifying (rested : Bool)
  | settled

/-- An event on its way, with its answer so far. -/
structure Delivery (ν : Type) where
  event : Event
  exchange : Exchange
  /-- What becomes of the event; it means nothing before the first turn. -/
  plan : Plan ν
  /-- Whether somebody waits for the outcome and looks for it; else the event's own task does. -/
  awaited : Bool
  stage : Stage ν
  /-- When the handler is given up. -/
  deadline : Option Nat
  outcome : Option Outcome

/-- What a turn leaves for others. -/
structure Effects (ν : Type) where
  logs : List LogEntry := []
  notes : List ν := []
  ready : List Role := []
  timers : List (Nat × Role) := []

/-- Whether a task has anything to do at a stage. -/
def Stage.heeds {ν : Type} : Stage ν → Role → Bool
  | arrived, .event => true
  | running .., .event => true
  | running .., .handler => true
  | ended _, .event => true
  | notifying _, .notice => true
  | _, _ => false

/-- What a handler does until it sleeps or ends. -/
inductive Pause (ν : Type)
  | asleep (ms : Nat) (acts : List (Act ν))
  | over (ending : Ending)

/-- What a handler has done in one turn. -/
structure Burst (ν : Type) where
  exchange : Exchange
  notes : List ν
  pause : Pause ν

/-- Runs acts up to the next sleep or the end; a call that is refused is the end. -/
def Burst.run {ν : Type} (history : List ν) (ending : Ending) (exchange : Exchange)
    (notes : List ν) : List (Act ν) → Burst ν
  | [] => ⟨exchange, notes, .over ending⟩
  | .call make :: acts =>
    match exchange.perform (make (history ++ notes)) with
    | (exchange, none) => run history ending exchange notes acts
    | (exchange, some cause) => ⟨exchange, notes, .over (.failed (.error cause))⟩
  | .attempt make :: acts =>
    run history ending (exchange.perform (make (history ++ notes))).1 notes acts
  | .sleep ms :: acts =>
    if ms = 0 then run history ending exchange notes acts
    else ⟨exchange, notes, .asleep ms acts⟩
  | .note make :: acts => run history ending exchange (notes ++ [make exchange.state]) acts

namespace Delivery

variable {ν : Type}

/-- An event that was taken in, to be answered over a transport, and waits for its first turn. -/
def posted (event : Event) (transport : Transport) (awaited : Bool) : Delivery ν where
  event := event
  exchange := .new event.subject transport
  plan := .ignore
  awaited := awaited
  stage := .arrived
  deadline := none
  outcome := none

/-- An event at its first turn, when it is settled what becomes of it. -/
def arriving (event : Event) (transport : Transport) (plan : Plan ν) (awaited : Bool) :
    Delivery ν :=
  { posted event transport awaited with plan }

@[simp]
theorem arriving_outcome (event : Event) (transport : Transport) (plan : Plan ν) (awaited : Bool) :
    (arriving event transport plan awaited).outcome = none :=
  rfl

/-- The same over a transport that refuses messages of some kinds. -/
def new (event : Event) (refused : List Verb) (plan : Plan ν) (awaited : Bool) : Delivery ν :=
  arriving event (.without refused) plan awaited

/-- The delivery by what the registry holds now: up to the first turn it is open what becomes of
the event, from then on it is settled. -/
def planned (router : Router) (registry : CommandRegistry ν) (d : Delivery ν) : Delivery ν :=
  match d.stage with
  | .arrived => { d with plan := router.plan registry d.event }
  | _ => d

/-- The end of an event without a failure to tell the user of. -/
def settle (d : Delivery ν) (outcome : Outcome) : Delivery ν :=
  { d with stage := .settled, outcome := some outcome }

/-- Sends a message, with a log entry if it is refused. -/
def tell (d : Delivery ν) (call : ReplyCall) (complain : ErrorChain → LogEntry) :
    Delivery ν × List LogEntry :=
  let (exchange, fault) := d.exchange.perform call
  ({ d with exchange }, (fault.map complain).toList)

/-- The end of an invocation by the end of its handler. -/
def concludeAction (d : Delivery ν) (command : String) (path : Path) :
    Ending → Delivery ν × Effects ν
  | .done _ => (d.settle .completed, {})
  | .failed failure =>
    ({ d with stage := .notifying false, outcome := some .failed },
      { logs := [.commandFailed command path failure], ready := [.notice] })

/-- The end of a request for suggestions: so many of them are sent as the platform takes, or none
after a failure. -/
def concludeCompletion (d : Delivery ν) (command argument : String) :
    Ending → Delivery ν × Effects ν
  | .done suggestions =>
    let dropped := if suggestions.length ≤ Check.maxChoices then []
      else [LogEntry.suggestionsDropped command argument suggestions.length]
    let shown := (suggestions.take Check.maxChoices).map ChoicePayload.ofChoice
    let (d, unsent) := d.tell (.send (.respond shown)) (.suggestionsUnsent command)
    (d.settle (.responded shown.length), { logs := dropped ++ unsent })
  | .failed failure =>
    let (d, unsent) := d.tell (.send (.respond [])) (.emptySuggestionsUnsent command)
    (d.settle .failed, { logs := .completionFailed command argument failure :: unsent })

/-- The end of an event by the end of its handler. -/
def conclude (d : Delivery ν) (ending : Ending) : Delivery ν × Effects ν :=
  match d.plan with
  | .handle command path _ => d.concludeAction command path ending
  | .complete command argument _ => d.concludeCompletion command argument ending
  | _ => (d, {})

/-- Starts a handler, unless it has no time at all. -/
def start (router : Router) (clock : Nat) (d : Delivery ν) (program : Program ν) :
    Delivery ν × Effects ν :=
  let started := { d with stage := .running program.acts program.ending }
  match router.timeLimit with
  | none => (started, { ready := [.handler] })
  | some 0 => d.conclude (.failed (.timeout 0))
  | some limit =>
    ({ started with deadline := some (clock + limit) },
      { ready := [.handler], timers := [(clock + limit, .event)] })

/-- The first turn of the event's task. -/
def receive (router : Router) (clock : Nat) (d : Delivery ν) : Delivery ν × Effects ν :=
  match d.plan with
  | .ignore => (d.settle .ignored, {})
  | .unhandled => (d.settle .unhandled, {})
  | .noCallback => (d.settle .noCallback, {})
  | .reject command gate text =>
    let (d, unsent) := d.tell (.send (.reply ⟨text, true⟩)) (.rejectionUnsent command)
    (d.settle (.rejected gate), { logs := .rejected command gate :: unsent })
  | .handle _ _ program => d.start router clock program
  | .complete _ _ program => d.start router clock program

/-- Whether the time of the handler is up. -/
def isLate (clock : Nat) (d : Delivery ν) : Bool :=
  d.deadline.any fun deadline => deadline ≤ clock

/-- The turn of the event's task. -/
def pollEvent (router : Router) (clock : Nat) (d : Delivery ν) : Delivery ν × Effects ν :=
  match d.stage with
  | .arrived => d.receive router clock
  | .running .. =>
    if d.isLate clock then d.conclude (.failed (.timeout (router.timeLimit.getD 0)))
    else (d, {})
  | .ended ending => d.conclude ending
  | _ => (d, {})

/-- The turn of the handler. -/
def pollHandler (clock : Nat) (history : List ν) (d : Delivery ν) : Delivery ν × Effects ν :=
  match d.stage with
  | .running acts ending =>
    let burst := Burst.run history ending d.exchange [] acts
    let d := { d with exchange := burst.exchange }
    match burst.pause with
    | .asleep ms acts =>
      ({ d with stage := .running acts ending },
        { notes := burst.notes, timers := [(clock + ms, .handler)] })
    | .over ending =>
      ({ d with stage := .ended ending },
        { notes := burst.notes
          ready := if d.awaited then [] else [.event] })
  | _ => (d, {})

/-- The turn of the notice. -/
def pollNotice (router : Router) (clock : Nat) (d : Delivery ν) : Delivery ν × Effects ν :=
  match d.stage with
  | .notifying rested =>
    if !rested && 0 < router.noticeDelay then
      ({ d with stage := .notifying true },
        { timers := [(clock + router.noticeDelay, .notice)] })
    else
      let (d, unsent) := d.tell (.notify ⟨router.messages.failure, true⟩)
        (.noticeUnsent d.exchange.invocation.command)
      ({ d with stage := .settled }, { logs := unsent })
  | _ => (d, {})

/-- One turn of a task. -/
def poll (router : Router) (clock : Nat) (history : List ν) (d : Delivery ν) :
    Role → Delivery ν × Effects ν
  | .event => d.pollEvent router clock
  | .handler => d.pollHandler clock history
  | .notice => d.pollNotice router clock

/-- Whether whoever waits for the outcome has it, or can have it at once. -/
def isDue (clock : Nat) (d : Delivery ν) : Bool :=
  match d.stage with
  | .arrived => false
  | .running .. => d.isLate clock
  | _ => true

/-- Whether the user has yet to be told of a failure. -/
def isNotifying (d : Delivery ν) : Bool :=
  match d.stage with
  | .notifying _ => true
  | _ => false

end Delivery

end SlashCommands
