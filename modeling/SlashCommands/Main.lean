import SlashCommands.Cli

/-!
# The program

Reads the files that the command line names and prints what comes of it.
-/

namespace SlashCommands

/-- What is found under a path. -/
def readContent (path : String) : IO FileContent := do
  try
    let bytes ← IO.FS.readBinFile path
    match String.fromUTF8? bytes with
    | some content => return .text content
    | none => return .undecodable
  catch
    | .noFileOrDirectory .. => return .absent
    | _ => return .undecodable

/-- The contents of the files that the options name. -/
def readFiles (options : Cli.Options) : IO (List (String × FileContent)) :=
  (options.config.toList ++ options.script.toList).mapM fun path =>
    return (path, ← readContent path)

/-- The files that were read, as the command line finds them by path. -/
def lookIn (files : List (String × FileContent)) : Cli.Files := fun path =>
  ((files.find? fun file => file.1 == path).map (·.2)).getD .absent

end SlashCommands

open SlashCommands in

/-- Reads the files a command line names, runs it, and prints what came of it. -/
def main (arguments : List String) : IO UInt32 := do
  let files ← match Cli.parse arguments with
    | .options options => readFiles options
    | _ => pure []
  let done := Cli.run arguments (lookIn files)
  done.output.forM IO.println
  match done.error with
  | some text => IO.eprintln ("[vidar-sim] Error: " ++ text)
  | none => pure ()
  return done.code
