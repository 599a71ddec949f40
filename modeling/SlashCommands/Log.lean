import SlashCommands.Access
import SlashCommands.Registry.Registrar
import SlashCommands.Text.Quoted

/-!
# The log

What is worth a warning or an error. An entry is a cause with its facts; its wording and its fields
are derived from it.
-/

namespace SlashCommands

/-- How grave an entry is. -/
inductive LogLevel
  | warn
  | error
deriving DecidableEq

/-- The level as the log prints it. -/
def LogLevel.name : LogLevel → String
  | warn => "WARN"
  | error => "ERROR"

/-- What is logged, with the names that belong to it. -/
inductive LogEntry
  | callbackMissing (command argument : String)
  | rejected (command : String) (gate : Gate)
  | rejectionUnsent (command : String) (cause : ErrorChain)
  | commandFailed (command : String) (path : Path) (cause : Failure)
  | noticeUnsent (command : String) (cause : ErrorChain)
  | suggestionsDropped (command argument : String) (returned : Nat)
  | suggestionsUnsent (command : String) (cause : ErrorChain)
  | emptySuggestionsUnsent (command : String) (cause : ErrorChain)
  | completionFailed (command argument : String) (cause : Failure)
  | guildUnknown (command : Option String) (guild : String)
  | guildsUnlisted (cause : ErrorChain)
  | bulkFailed (scope : Scope) (commands : List String) (cause : ErrorChain)
  | additionFailed (command : String) (scope : Scope) (cause : ErrorChain)
  | additionUnlisted (command : String) (cause : ErrorChain)
deriving DecidableEq

namespace LogEntry

/-- Work that failed is an error, all else a warning. -/
def level : LogEntry → LogLevel
  | commandFailed .. | completionFailed .. | guildsUnlisted .. | bulkFailed .. | additionFailed ..
  | additionUnlisted .. => .error
  | _ => .warn

/-- The text of the entry, without the names in it. -/
def message : LogEntry → String
  | callbackMissing .. => "autocomplete argument has no callback"
  | rejected .. => "invocation rejected"
  | rejectionUnsent .. => "failed to send rejection"
  | commandFailed .. => "command failed"
  | noticeUnsent .. => "failed to send failure notice"
  | suggestionsDropped .. => "dropping suggestions beyond " ++ toString Check.maxChoices
  | suggestionsUnsent .. => "failed to send suggestions"
  | emptySuggestionsUnsent .. => "failed to send empty suggestions"
  | completionFailed .. => "autocomplete failed"
  | guildUnknown .. => "no guild matches this reference; skipped"
  | guildsUnlisted .. => "failed to list guilds; guild commands were not registered"
  | bulkFailed .. => "bulk registration failed"
  | additionFailed .. => "hot-add failed"
  | additionUnlisted .. => "failed to list guilds for hot-add"

/-- The fields of an entry. Failures of handlers are shown in full, other errors by their outermost
text. -/
def fields : LogEntry → List (String × String)
  | callbackMissing command argument => [("command", command), ("argument", argument)]
  | rejected command gate => [("command", command), ("gate", gate.name)]
  | rejectionUnsent command cause => [("command", command), ("error", cause.outermost)]
  | commandFailed command path cause =>
    [("command", command), ("path", path.text), ("error", cause.text)]
  | noticeUnsent command cause => [("command", command), ("error", cause.outermost)]
  | suggestionsDropped command argument returned =>
    [("command", command), ("argument", argument), ("returned", toString returned)]
  | suggestionsUnsent command cause => [("command", command), ("error", cause.outermost)]
  | emptySuggestionsUnsent command cause => [("command", command), ("error", cause.outermost)]
  | completionFailed command argument cause =>
    [("command", command), ("argument", argument), ("error", cause.text)]
  | guildUnknown command guild => (command.map (("command", ·))).toList ++ [("guild", guild)]
  | guildsUnlisted cause => [("error", cause.outermost)]
  | bulkFailed scope commands cause =>
    [("scope", scope.text), ("commands", Text.quoteList commands), ("error", cause.outermost)]
  | additionFailed command .global cause => [("command", command), ("error", cause.outermost)]
  | additionFailed command scope cause =>
    [("command", command), ("scope", scope.text), ("error", cause.outermost)]
  | additionUnlisted command cause => [("command", command), ("error", cause.outermost)]

end LogEntry

end SlashCommands
