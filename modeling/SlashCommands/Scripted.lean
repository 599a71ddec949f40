import SlashCommands.Draft
import SlashCommands.Registry.Registrar
import SlashCommands.Router

/-!
# Scripted handlers

Handlers, completions and registrars that follow a script. They note what they see, so a run can be
looked at afterwards, and they can be told to fail in every way there is.
-/

namespace SlashCommands

/-- A note of a scripted handler or completion. -/
inductive Hit
  | ran (tag : String)
  | state (state : ReplyState)
  | path (path : Path)
  | string (value : Option String)
  | integer (value : Option Int64)
  | float (value : Option Binary64)
  | boolean (value : Option Bool)
  | suggest (tag : String) (path : Path) (focused query : String)

/-- A step of a scripted handler. The words for what it reads make a note of it. -/
inductive ScriptStep
  | call (call : ReplyCall)
  | sleep (ms : Nat)
  | fail (text : String)
  /-- Fails with a text that is wrapped once. -/
  | failInside (text : String)
  | panic (text : Option String)
  | state
  | path
  | string (option : String)
  | integer (option : String)
  | float (option : String)
  | boolean (option : String)

/-- A handler by its steps, under the tag it leaves. -/
structure HandlerScript where
  tag : String
  steps : List ScriptStep

namespace HandlerScript

/-- What follows the steps done so far; a failing step is the last one. -/
def follow (i : Invocation) (done : List (Act Hit)) : List ScriptStep → Program Hit
  | [] => ⟨done, .done []⟩
  | .call call :: steps => follow i (done ++ [.call fun _ => call]) steps
  | .sleep ms :: steps => follow i (done ++ [.sleep ms]) steps
  | .fail text :: _ => ⟨done, .failed (.error (.ofText text))⟩
  | .failInside text :: _ => ⟨done, .failed (.error ((ErrorChain.ofText text).within "outer"))⟩
  | .panic text :: _ => ⟨done, .failed (.panic text)⟩
  | .state :: steps => follow i (done ++ [.note .state]) steps
  | .path :: steps => follow i (done ++ [.note fun _ => .path i.path]) steps
  | .string option :: steps => follow i (done ++ [.note fun _ => .string (i.string? option)]) steps
  | .integer option :: steps =>
    follow i (done ++ [.note fun _ => .integer (i.integer? option)]) steps
  | .float option :: steps => follow i (done ++ [.note fun _ => .float (i.float? option)]) steps
  | .boolean option :: steps =>
    follow i (done ++ [.note fun _ => .boolean (i.boolean? option)]) steps

/-- The script as a handler. -/
def toAction (script : HandlerScript) : Action Hit := fun i =>
  follow i [.note fun _ => .ran script.tag] script.steps

end HandlerScript

/-- What a scripted completion ends with. -/
inductive ScriptAnswer
  | fail (text : String)
  | panic (text : String)
  /-- The integers below a limit. -/
  | range (limit : Nat)
  /-- The focused argument and what was typed. -/
  | echo
  | values (values : List Choice)

/-- A completion by its answer, under the tag it leaves, and how long it takes to come. -/
structure CompletionScript where
  tag : String
  sleep : Option Nat
  answer : ScriptAnswer

namespace CompletionScript

/-- How the completion of a request ends. -/
def ending (request : Request) : ScriptAnswer → Ending
  | .fail text => .failed (.error (.ofText text))
  | .panic text => .failed (.panic (some text))
  | .range limit => .done ((List.range limit).map fun n => .integer (.ofNat n))
  | .echo => .done [.string request.focused, .string request.query]
  | .values values => .done values

/-- The script as a completion. -/
def toCompletion (script : CompletionScript) : Completion Hit := fun request =>
  ⟨.note (fun _ => .suggest script.tag request.invocation.path request.focused request.query)
      :: (script.sleep.map Act.sleep).toList,
    ending request script.answer⟩

end CompletionScript

/-- A registrar that refuses what it is told to refuse. -/
structure RegistrarScript where
  contexts : List GuildContext
  /-- Why the guilds cannot be listed. -/
  contextFault : Option String
  refusedSets : List Scope
  refusedCreations : List Scope

namespace RegistrarScript

/-- A registrar that knows no guilds and refuses nothing. -/
def empty : RegistrarScript :=
  ⟨[], none, [], []⟩

/-- The answer to a request, by the scopes that are refused. -/
def answer (refused : List Scope) (what : String) (scope : Scope) : Except ErrorChain Unit :=
  if refused.contains scope then
    .error ((ErrorChain.ofText "denied").within (what ++ " rejected for " ++ scope.text))
  else .ok ()

/-- The script as a registrar. -/
def toRegistrar (script : RegistrarScript) : Registrar where
  contexts := match script.contextFault with
    | some text => .error ((ErrorChain.ofText text).within "cannot list guilds")
    | none => .ok script.contexts
  set := fun scope _ => answer script.refusedSets "set" scope
  create := fun scope _ => answer script.refusedCreations "create" scope

end RegistrarScript

end SlashCommands
