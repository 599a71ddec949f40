import SlashCommands.Delivery
import SlashCommands.Registry.Sync

/-!
# The machine

The machine runs deliveries and single registrations on a clock of its own. What is ready runs in
the order it became ready, each for one turn; only when nothing is ready the clock jumps to the next
timer. `effort` bounds how many turns are left, so running ends without a bound from outside.
-/

namespace SlashCommands

/-- A task of a delivery, by its number. -/
structure Task where
  delivery : Nat
  role : Role
deriving DecidableEq

/-- What a machine can do next. -/
inductive Job (ν : Type)
  | task (task : Task)
  | addition (addition : Addition (Action ν) (Completion ν))

/-- A moment to wake a task at, or just to wake whoever waits. -/
structure Timer where
  time : Nat
  task : Option Task
deriving DecidableEq

/-- A router at work: its registry, the events that it took in, and what is to be done. -/
structure Machine (ν : Type) where
  /-- In milliseconds. -/
  clock : Nat
  router : Router
  registry : CommandRegistry ν
  /-- In the order in which the events came; their places are their numbers. -/
  deliveries : List (Delivery ν)
  /-- What is ready to run, in order. -/
  queue : List (Job ν)
  /-- In the order they were set. -/
  timers : List Timer
  notes : List ν
  calls : List RegistrarCall
  logs : List LogEntry

namespace Machine

variable {ν : Type}

/-- A machine that nothing has come to. -/
def new (router : Router) (registry : CommandRegistry ν) : Machine ν where
  clock := 0
  router := router
  registry := registry
  deliveries := []
  queue := []
  timers := []
  notes := []
  calls := []
  logs := []

/-- Does what a registration consists of. -/
def act (m : Machine ν) : Activity → Machine ν
  | .call call => { m with calls := m.calls ++ [call] }
  | .log entry => { m with logs := m.logs ++ [entry] }

/-- Does one thing after the other. -/
def actAll (m : Machine ν) (activities : List Activity) : Machine ν :=
  activities.foldl act m

/-- Whether a timer still wakes something; those of a delivery end with the stage that set them. -/
def keeps (id : Nat) (stage : Stage ν) (timer : Timer) : Bool :=
  match timer.task with
  | some task => task.delivery != id || stage.heeds task.role
  | none => true

/-- A delivery by what the registry holds now. -/
def delivery? (m : Machine ν) (id : Nat) : Option (Delivery ν) :=
  m.deliveries[id]?.map fun d => d.planned m.router m.registry

/-- Gives a task its turn. -/
def turn (m : Machine ν) (task : Task) : Machine ν :=
  match m.delivery? task.delivery with
  | none => m
  | some d =>
    let (d, effects) := d.poll m.router m.clock m.notes task.role
    { m with
      deliveries := m.deliveries.set task.delivery d
      queue := m.queue ++ effects.ready.map fun role => .task ⟨task.delivery, role⟩
      timers := m.timers.filter (keeps task.delivery d.stage)
        ++ effects.timers.map fun timer => ⟨timer.1, some ⟨task.delivery, timer.2⟩⟩
      notes := m.notes ++ effects.notes
      logs := m.logs ++ effects.logs }

/-- Does a job. -/
def perform (m : Machine ν) : Job ν → Machine ν
  | .task task => m.turn task
  | .addition addition => m.actAll addition.run

/-! ## How much is left to do -/

/-- A bound on what a delivery leaves to do from a stage on. -/
def Stage.effort : Stage ν → Plan ν → Nat
  | .arrived, .handle _ _ program => 3 * program.acts.length + 11
  | .arrived, .complete _ _ program => 3 * program.acts.length + 11
  | .arrived, _ => 1
  | .running acts _, _ => 3 * acts.length + 7
  | .ended _, _ => 5
  | .notifying false, _ => 3
  | .notifying true, _ => 0
  | .settled, _ => 0

/-- A bound on the turns and jumps of the clock to come. -/
def effort (m : Machine ν) : Nat :=
  m.queue.length + 2 * m.timers.length
    + m.deliveries.foldr
      (fun d rest => Stage.effort d.stage (d.planned m.router m.registry).plan + rest) 0

/-! ## Running -/

/-- Runs what is ready, and what becomes ready meanwhile. -/
def drainWith : Nat → Machine ν → Machine ν
  | 0, m => m
  | fuel + 1, m =>
    match m.queue with
    | [] => m
    | job :: queue => drainWith fuel (({ m with queue } : Machine ν).perform job)

/-- Runs until nothing is ready. -/
def drain (m : Machine ν) : Machine ν :=
  drainWith m.effort m

/-- The time of the next timer. -/
def nextTime? (m : Machine ν) : Option Nat :=
  (m.timers.map Timer.time).min?

/-- Jumps to the next timer and wakes what it and all others of that time are set for. -/
def tick? (m : Machine ν) : Option (Machine ν) :=
  m.nextTime?.map fun time =>
    let (due, later) := m.timers.partition fun timer => timer.time == time
    { m with
      clock := time
      queue := m.queue ++ (due.filterMap Timer.task).map Job.task
      timers := later }

/-- Runs until a goal is met. The goal is looked at first, and whenever the clock has moved or
nothing is ready. -/
def runWith (goal : Machine ν → Bool) : Nat → Machine ν → Machine ν
  | 0, m => m
  | fuel + 1, m =>
    if goal m then m
    else
      let m := m.drain
      if goal m then m
      else match m.tick? with
        | some m => runWith goal fuel m
        | none => m

/-- Runs until a goal is met, or until nothing is left that could happen. -/
def runUntil (m : Machine ν) (goal : Machine ν → Bool) : Machine ν :=
  runWith goal (m.effort + 1) m

/-! ## What is asked of a machine -/

/-- Takes in an event, to be answered over a transport; it is looked at when its turn comes. -/
def postOver (m : Machine ν) (event : Event) (transport : Transport) : Machine ν :=
  { m with
    deliveries := m.deliveries ++ [.posted event transport false]
    queue := m.queue ++ [.task ⟨m.deliveries.length, .event⟩] }

/-- The same over a transport that refuses messages of some kinds. -/
def post (m : Machine ν) (event : Event) (refused : List Verb) : Machine ν :=
  m.postOver event (.without refused)

/-- Takes in an event that somebody waits for. -/
def take (m : Machine ν) (event : Event) (transport : Transport) : Machine ν :=
  { m with deliveries := m.deliveries ++ [.posted event transport true] }

/-- Takes in an event that somebody waits for, and gives it its first turn. -/
def enter (m : Machine ν) (event : Event) (transport : Transport) : Machine ν :=
  (m.take event transport).turn ⟨m.deliveries.length, .event⟩

/-- Whether whoever waits for a delivery has its outcome, or can have it at once. -/
def due (id : Nat) (m : Machine ν) : Bool :=
  (m.deliveries[id]?).all fun d => d.isDue m.clock

/-- Takes in an event, to be answered over a transport, and waits for its outcome. -/
def dispatchOver (m : Machine ν) (event : Event) (transport : Transport) : Machine ν :=
  let id := m.deliveries.length
  ((m.enter event transport).runUntil (due id)).turn ⟨id, .event⟩

/-- The same over a transport that refuses messages of some kinds. -/
def dispatch (m : Machine ν) (event : Event) (refused : List Verb) : Machine ν :=
  m.dispatchOver event (.without refused)

/-- Whether a single registration is under way. -/
def hasAddition (m : Machine ν) : Bool :=
  m.queue.any fun job => match job with
    | .addition _ => true
    | .task _ => false

/-- Waits until no failure is kept back any more. -/
def flushNotices (m : Machine ν) : Machine ν :=
  m.runUntil fun m => !m.deliveries.any Delivery.isNotifying

/-- Waits until no single registration is under way. -/
def flushAdditions (m : Machine ν) : Machine ν :=
  m.runUntil fun m => !m.hasAddition

/-- Waits until every event is over. -/
def settle (m : Machine ν) : Machine ν :=
  m.runUntil fun m => m.deliveries.all fun d => d.outcome.isSome

/-- Lets the time pass. -/
def idle (m : Machine ν) (ms : Nat) : Machine ν :=
  let wake := m.clock + ms
  ({ m with timers := m.timers ++ [⟨wake, none⟩] } : Machine ν).runUntil fun m => wake ≤ m.clock

/-- Registers a command by itself, in the background. -/
def addAlone (m : Machine ν) (s : Command ν) : Machine ν :=
  match m.registry.addition? s with
  | some addition => { m with queue := m.queue ++ [.addition addition] }
  | none => m

/-- Adds a sealed command. -/
def add (m : Machine ν) (s : Command ν) : Checked (Machine ν) := do
  let (registry, alone) ← m.registry.add s
  let m := { m with registry }
  return if alone then m.addAlone s else m

/-- Opens the first phase of registration. -/
def begin (m : Machine ν) (registrar : Registrar) (runtime : Option Runtime) :
    Except RegistryFault (Machine ν × Snapshot (Action ν) (Completion ν)) :=
  (m.registry.begin registrar runtime).map fun (registry, snapshot) =>
    ({ m with registry }, snapshot)

/-- Closes the first phase; the commands that waited for it follow one by one. -/
def complete (m : Machine ν) : Machine ν :=
  let (registry, queued) := m.registry.complete
  queued.foldl addAlone { m with registry }

/-- Registers everything there is. -/
def register (m : Machine ν) (registrar : Registrar) (runtime : Option Runtime) :
    Except RegistryFault (Machine ν × SyncReport) :=
  (m.begin registrar runtime).map fun (m, snapshot) =>
    let (activities, report) := snapshot.sync registrar
    ((m.actAll activities).complete, report)

end Machine

end SlashCommands
