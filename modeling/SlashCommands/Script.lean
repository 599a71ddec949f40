import SlashCommands.Invocation.Wire
import SlashCommands.Json.Reader
import SlashCommands.Router

/-!
# Scripts of events

A script is a JSON array of events. The field `kind` tells invocations from requests for
suggestions; the other fields are those of the invocation, and for a request also what is focused
and typed. An invocation may be written as an array with its kind in front.
-/

namespace SlashCommands

namespace Event

/-- The kind of an invocation. -/
def invocationKind : String := "invoke"

/-- The kind of a request for suggestions. -/
def completionKind : String := "autocomplete"

/-- The kind of an event and its other fields. -/
def splitKind? (fields : List (String × Json)) : Option (String × List (String × Json)) :=
  match fields.filter fun field => field.1 == "kind" with
  | [(_, .str kind)] => some (kind, fields.filter fun field => field.1 != "kind")
  | _ => none

/-- Reads a request from the fields of an event. What was typed may be left out. -/
def readRequest (fields : List (String × Json)) : Option Request := do
  let invocation ← Invocation.ofJson? (.obj fields)
  let [focused, query] ← (Json.obj fields).record? ["focused", "query"] | none
  let focused ← Json.need Json.readString focused
  let query ← Json.orElse Json.readString "" query
  return ⟨invocation, focused, query⟩

/-- Reads an event. Only an invocation may be an array. -/
def ofJson? : Json → Option Event
  | .obj fields =>
    (splitKind? fields).bind fun (kind, fields) =>
      if kind = invocationKind then (Invocation.ofJson? (.obj fields)).map invocation
      else if kind = completionKind then (readRequest fields).map completion
      else none
  | .arr (.str kind :: fields) =>
    if kind = invocationKind then (Invocation.ofJson? (.arr fields)).map invocation else none
  | _ => none

/-- What an event is called in the output, by its place in the script. -/
def label (e : Event) (place : Nat) : String :=
  let path := e.subject.path.text
  "#" ++ toString place ++ " /" ++ e.subject.command ++ (if path.isEmpty then "" else " " ++ path)

/-- The events of a script. -/
def readScript (text : String) : Option (List Event) :=
  (Json.ofText? text).bind (Json.readList ofJson?)

end Event

end SlashCommands
