import SlashCommands.Check
import SlashCommands.Platform.Permission

/-!
# Access requirements

A requirement is a permission or a role. A text behind an at sign is always a role; any other text
is a permission if it names one, and else a role.
-/

namespace SlashCommands

/-- What a command asks of a member. -/
inductive Requirement
  | permission (permission : Permission)
  /-- A role by name or id. -/
  | role (reference : String)
deriving DecidableEq

/-- Reads a requirement: a role behind an `@`, otherwise a permission. -/
def Requirement.parse (raw : String) : Checked Requirement := do
  let text := Text.trimmed raw
  Check.notBlank text "requirement"
  match text.toList with
  | '@' :: rest =>
    let reference := String.ofList rest
    Check.notBlank reference "role name after '@'"
    return .role reference
  | _ =>
    match Permission.ofText? text with
    | some p => return .permission p
    | none => return .role text

end SlashCommands
