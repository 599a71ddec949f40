import SlashCommands.Document.Toml.Scalar

/-!
# Tables of TOML

A table is opened by a header, by a dotted key, or only implied by the header of a table inside it.
Which of the three it was decides what may still be added: what a header opened is closed to dotted
keys from outside, and a header may complete a table that was merely implied, once.
-/

namespace SlashCommands.Toml

/-- How a table came to be. -/
inductive Origin
  | header
  | implied
  | dotted
deriving DecidableEq

/-- What is stored under a key. -/
inductive Node
  | value (document : Document)
  | table (origin : Origin) (fields : List (String × Node))
  /-- The tables of an array, each under its own header. -/
  | tables (items : List Node)

/-- A table that is being filled, its entries in the order they came. -/
structure Table where
  origin : Origin
  fields : List (String × Node)

namespace Node

mutual

/-- The entry as a document, level by level. -/
def toDocument : Node → Document
  | value document => document
  | table _ fields => .map (fieldsToDocument fields)
  | tables items => .list (itemsToDocument items) false

/-- The entries of a table as the fields of a map. -/
def fieldsToDocument : List (String × Node) → List (String × Document)
  | [] => []
  | field :: fields => (field.1, field.2.toDocument) :: fieldsToDocument fields

/-- The tables of an array as the items of a list. -/
def itemsToDocument : List Node → List Document
  | [] => []
  | item :: items => item.toDocument :: itemsToDocument items

end

end Node

namespace Table

/-- A table without entries. -/
def empty (origin : Origin) : Table :=
  ⟨origin, []⟩

/-- The table as a document. -/
def toDocument (t : Table) : Document :=
  (Node.table t.origin t.fields).toDocument

/-- What is stored under a key. -/
def get? (t : Table) (key : String) : Option Node :=
  (t.fields.find? fun field => field.1 == key).map (·.2)

/-- Replaces what is stored under a key, or adds it. -/
def set (t : Table) (key : String) (node : Node) : Table :=
  { t with fields := (t.fields.filter fun field => field.1 != key) ++ [(key, node)] }

/-- The table as an entry of another. -/
def toNode (t : Table) : Node :=
  .table t.origin t.fields

/-- Changes a table inside an entry: the entry itself, or the last table of an array. A dotted key
does not enter what a header opened. -/
def changeSlot? (dotted : Bool) (change : Table → Option Table) : Option Node → Option Node
  | none => (change (empty (if dotted then .dotted else .implied))).map toNode
  | some (.table origin fields) =>
    if dotted && origin = .header then none else (change ⟨origin, fields⟩).map toNode
  | some (.tables items) =>
    match items.getLast? with
    | some (.table origin fields) =>
      (change ⟨origin, fields⟩).map fun t => .tables (items.dropLast ++ [t.toNode])
    | _ => none
  | some (.value _) => none

/-- Changes the table at the end of a path, through tables that are there or are opened on the way.
-/
def changeAt? (dotted : Bool) (change : Table → Option Table) : List String → Table → Option Table
  | [], t => change t
  | key :: path, t =>
    (changeSlot? dotted (changeAt? dotted change path) (t.get? key)).map fun node =>
      t.set key node

/-- Puts a value under a dotted key; nothing is ever put there twice. -/
def put? (t : Table) (path : List String) (value : Document) : Option Table :=
  match path.getLast? with
  | none => none
  | some key =>
    changeAt? true (fun inner =>
      if (inner.origin == .dotted) == path.dropLast.isEmpty then none
      else match inner.get? key with
        | some _ => none
        | none => some (inner.set key (.value value))) path.dropLast t

end Table

/-- All tables of a document, with the one that is being filled kept apart. -/
structure Tables where
  root : Table
  current : Table
  path : List String
  repeated : Bool

namespace Tables

/-- No table but the root, which is the one being filled. -/
def empty : Tables :=
  ⟨.empty .header, .empty .header, [], false⟩

/-- Stores a value in the table that is being filled. -/
def put? (t : Tables) (path : List String) (value : Document) : Option Tables :=
  (t.current.put? path value).map fun current => { t with current }

/-- Adds one more table to an array. -/
def append? (table : Table) : Option Node → Option Node
  | none => some (.tables [table.toNode])
  | some (.tables items) => some (.tables (items ++ [table.toNode]))
  | some _ => none

/-- Puts a table where it belongs; one that was implied meanwhile gives way. -/
def place? (table : Table) : Option Node → Option Node
  | none => some table.toNode
  | some (.table .header _) => none
  | some (.table _ _) => some table.toNode
  | some _ => none

/-- Puts the table that was being filled into the document. -/
def close? (t : Tables) : Option Table :=
  match t.path.getLast? with
  | none => some t.current
  | some key =>
    Table.changeAt? false (fun parent =>
      ((if t.repeated then append? else place?) t.current (parent.get? key)).map fun node =>
        parent.set key node) t.path.dropLast t.root

/-- What a header of one more table in an array needs to find. -/
def canAppend : Option Node → Bool
  | none => true
  | some (.tables _) => true
  | some _ => false

/-- The table that a header completes. -/
def completed? : Option Node → Option Table
  | none => some (.empty .header)
  | some (.table .implied fields) => some ⟨.header, fields⟩
  | some _ => none

/-- The table at the end of a path. -/
def find? : List String → Table → Option Table
  | [], t => some t
  | key :: path, t =>
    match t.get? key with
    | none => find? path (.empty .implied)
    | some (.table origin fields) => find? path ⟨origin, fields⟩
    | some (.tables items) =>
      match items.getLast? with
      | some (.table origin fields) => find? path ⟨origin, fields⟩
      | _ => none
    | some (.value _) => none

/-- A table without the entry of a key. -/
def without (key : String) (parent : Table) : Table :=
  { parent with fields := parent.fields.filter fun field => field.1 != key }

/-- Begins the table under a header. -/
def begin? (t : Tables) (path : List String) (repeated : Bool) : Option Tables :=
  match path.getLast? with
  | none => none
  | some key =>
    t.close?.bind fun root =>
      (find? path.dropLast root).bind fun parent =>
        if repeated then
          if canAppend (parent.get? key) then some ⟨root, .empty .header, path, true⟩ else none
        else (completed? (parent.get? key)).bind fun current =>
          (Table.changeAt? false (fun parent => some (without key parent)) path.dropLast root).map
            fun root => ⟨root, current, path, false⟩

end Tables

end SlashCommands.Toml
