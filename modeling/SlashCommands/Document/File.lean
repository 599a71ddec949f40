import SlashCommands.Document.Toml
import SlashCommands.Document.Yaml
import SlashCommands.Documentation
import SlashCommands.Json.Reader

/-!
# Documents in files

What a file holds is read by the ending of its name: YAML, TOML, or else JSON.
-/

namespace SlashCommands

/-- What was found where a file should be. -/
inductive FileContent
  | absent
  /-- Bytes that are no text. -/
  | undecodable
  | text (text : String)
deriving DecidableEq, Inhabited

/-- A format that files are written in. -/
inductive Format
  | json
  | yaml
  | toml
deriving DecidableEq

namespace Format

/-- The last part of a path. -/
def fileName (path : String) : List Char :=
  (Text.splitWhere (· = '/') path.toList).getLast?.getD []

/-- What follows the last dot of a file name, unless the dot is the first character. -/
def ending (path : String) : List Char :=
  let reversed := (fileName path).reverse
  let stem := (reversed.dropWhile (· != '.')).drop 1
  if stem.isEmpty then [] else (reversed.takeWhile (· != '.')).reverse

/-- The format of a file by the ending of its path, in whatever case. JSON when the ending says
nothing. -/
def ofPath (path : String) : Format :=
  let ending := String.ofList (Decimal.lowerAscii (ending path))
  if ending = "yaml" ∨ ending = "yml" then yaml
  else if ending = "toml" then toml
  else json

/-- The format as messages name it. -/
def name : Format → String
  | json => "json"
  | yaml => "yaml"
  | toml => "toml"

/-- The document that a text of the format holds. -/
def read (format : Format) (text : String) : Option Document :=
  match format with
  | json => (Json.readText text).map .ofJson
  | yaml => Yaml.ofText? text
  | toml => Toml.ofText? text

end Format

namespace FileContent

/-- The documentation entries of a file. -/
def readDocs (content : FileContent) (path : String) : Checked (List Doc) :=
  match content with
  | absent => .error (.unreadable path "No such file or directory (os error 2)")
  | undecodable => .error (.unreadable path "stream did not contain valid UTF-8")
  | text content =>
    match ((Format.ofPath path).read content).filter Document.isPlain with
    | some document => DocEntry.readAll ("docs file " ++ path) document
    | none => .error (.unparsable path)

end FileContent

end SlashCommands
