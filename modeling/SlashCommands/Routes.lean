import SlashCommands.Path
import SlashCommands.Text.Quoted

/-!
# Handler routes

A command has one handler, or handlers by path. A path is handled by its own route, else by the
route of its subgroup, else by the default one.
-/

namespace SlashCommands

/-- Handlers by path, with an optional handler for all other paths. -/
structure RouteTable (η : Type) where
  routes : List (Path × η)
  fallback : Option η

/-- What handles a command: one handler whatever the path, or a table of them. -/
inductive Handler (η : Type)
  | single (handler : η)
  | routes (table : RouteTable η)

namespace RouteTable

variable {η : Type}

/-- A table without routes. -/
def empty : RouteTable η :=
  ⟨[], none⟩

/-- The handler stored under a path. -/
def get? (table : RouteTable η) (p : Path) : Option η :=
  (table.routes.find? fun route => route.1 == p).map (·.2)

/-- Whether a handler is stored under a path. -/
def contains (table : RouteTable η) (p : Path) : Bool :=
  (table.get? p).isSome

/-- How many handlers are stored, the one for all other paths among them. -/
def size (table : RouteTable η) : Nat :=
  table.routes.length + if table.fallback.isSome then 1 else 0

/-- The route of a path itself. The root has none. -/
def own? (table : RouteTable η) (p : Path) : Option η :=
  if p.isRoot then none else table.get? p

/-- The handler of a path: its own, its subgroup's, or the default one. -/
def resolve (table : RouteTable η) (p : Path) : Option η :=
  (table.own? p <|> p.groupOnly.bind table.get?) <|> table.fallback

/-- The paths with routes of their own, in ascending order of their texts. -/
def pathTexts (table : RouteTable η) : List String :=
  (table.routes.map fun route => route.1.text).mergeSort fun a b => a ≤ b

end RouteTable

namespace Handler

variable {η : Type}

/-- The handler that runs for a path. -/
def resolve (h : Handler η) (p : Path) : Option η :=
  match h with
  | single handler => some handler
  | routes table => table.resolve p

/-- What is shown of a table of routes. -/
def summary (table : RouteTable η) : String :=
  "Handler::Routes \x7b routes: " ++ Text.quoteList table.pathTexts ++ ", default: "
    ++ (if table.fallback.isSome then "true" else "false") ++ " \x7d"

end Handler

end SlashCommands
