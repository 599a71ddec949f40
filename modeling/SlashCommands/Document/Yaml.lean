import SlashCommands.Document.Yaml.Meaning

/-!
# YAML documents

The tokens of a text make up one document: nested sequences and mappings of scalars, at most 128
deep. An alias stands for what its anchor was put on. An alias inside what it stands for, and a
mapping with a key that is no scalar, can be written, but not read.
-/

namespace SlashCommands.Yaml

/-- What anchors were put on; one whose value is not complete has none. -/
abbrev Anchors := List (String × Option Document)

/-- The handles of tags and what they stand for. -/
abbrev Handles := List (String × String)

/-- The handles every document begins with. -/
def defaultHandles : Handles :=
  [("!", "!"), ("!!", coreTag)]

/-- A tag in full. -/
def resolveTag (handles : Handles) (handle suffix : String) : Option String :=
  if handle.isEmpty then some suffix
  else (handles.find? fun h => h.1 == handle).map fun h => h.2 ++ suffix

/-- The properties in front of a node. -/
structure Properties where
  anchor : Option String
  tag : Option String

/-- The anchor and the tag in front of a node, in either order. -/
def readProperties (handles : Handles) : List Token → Option (Properties × List Token)
  | .anchor name :: .tag handle suffix :: rest =>
    (resolveTag handles handle suffix).map fun tag => (⟨some name, some tag⟩, rest)
  | .tag handle suffix :: .anchor name :: rest =>
    (resolveTag handles handle suffix).map fun tag => (⟨some name, some tag⟩, rest)
  | .anchor name :: rest => some (⟨some name, none⟩, rest)
  | .tag handle suffix :: rest =>
    (resolveTag handles handle suffix).map fun tag => (⟨none, some tag⟩, rest)
  | rest => some (⟨none, none⟩, rest)

/-- What nobody can read. -/
def unreadable : Document :=
  .special (.leaf .other)

/-- A sequence or mapping under a tag; a tag of its own makes it special. -/
def collection (tag : Option String) (document : Document) : Document :=
  if tag.any (·.startsWith "!") then .special document else document

/-- The text of a key. -/
def keyText? : Document → Option String
  | .leaf scalar => scalar.text
  | .special (.leaf scalar) => scalar.text
  | _ => none

/-- A mapping of keys and values. -/
def mapping (pairs : List (Document × Document)) : Document :=
  match pairs.mapM fun pair => (keyText? pair.1).map (·, pair.2) with
  | some fields => .map fields
  | none => unreadable

/-- What was read, the anchors known after it, and the rest. -/
structure Read (α : Type) where
  value : α
  anchors : Anchors
  rest : List Token

/-- Where a node stands. -/
structure Place where
  /-- Whether blocks may begin. -/
  inBlock : Bool
  /-- Whether entries may follow without a block of their own. -/
  looseEntries : Bool

/-- Whether a key or value of a block mapping is left out. -/
def endsPair : List Token → Bool
  | .key :: _ | .value :: _ | .blockEnd :: _ => true
  | _ => false

/-- Whether an entry of a block sequence is left out. -/
def endsEntry : List Token → Bool
  | .entry :: _ | .blockEnd :: _ => true
  | _ => false

/-- Whether an entry of a sequence without a block of its own is left out. -/
def endsLooseEntry : List Token → Bool
  | .entry :: _ | .key :: _ | .value :: _ | .blockEnd :: _ => true
  | _ => false

/-- Whether a value inside brackets is left out. -/
def endsFlowValue (close : Token) : List Token → Bool
  | .comma :: _ => true
  | t :: _ => t = close
  | [] => false

/-- Whether a key inside brackets is left out. -/
def endsFlowKey (close : Token) : List Token → Bool
  | .value :: _ => true
  | rest => endsFlowValue close rest

/-- Properties may stand alone; then the node is empty. -/
def readEmpty (properties : Properties) (anchors : Anchors) (tokens : List Token) :
    Option (Read Document) :=
  if properties.anchor.isSome || properties.tag.isSome then
    some ⟨meaning .plain "" properties.tag, anchors, tokens⟩
  else none

mutual

/-- Reads a node. The fuel bounds the number of steps. -/
def readNode (handles : Handles) (place : Place) :
    Nat → Anchors → List Token → Option (Read Document)
  | 0, _, _ => none
  | fuel + 1, anchors, tokens =>
    match tokens with
    | .alias name :: rest =>
      (anchors.find? fun a => a.1 == name).map fun a => ⟨a.2.getD unreadable, anchors, rest⟩
    | _ =>
      match readProperties handles tokens with
      | none => none
      | some (properties, rest) =>
        let pending := match properties.anchor with
          | some name => (name, none) :: anchors
          | none => anchors
        (readContent handles place properties fuel pending rest).map fun r =>
          match properties.anchor with
          | some name => { r with anchors := (name, some r.value) :: r.anchors }
          | none => r

/-- Reads a node behind its properties. -/
def readContent (handles : Handles) (place : Place) (properties : Properties) :
    Nat → Anchors → List Token → Option (Read Document)
  | 0, _, _ => none
  | fuel + 1, anchors, tokens =>
    let wrap := fun (r : Read (List Document)) =>
      (⟨collection properties.tag (.list r.value true), r.anchors, r.rest⟩ : Read Document)
    let wrapMap := fun (r : Read (List (Document × Document))) =>
      (⟨collection properties.tag (mapping r.value), r.anchors, r.rest⟩ : Read Document)
    match tokens with
    | .scalar style text :: rest => some ⟨meaning style text properties.tag, anchors, rest⟩
    | .flowSequence :: rest => (readFlowItems handles true fuel anchors rest).map wrap
    | .flowMapping :: rest => (readFlowPairs handles true fuel anchors rest).map wrapMap
    | .entry :: rest =>
      if place.looseEntries then
        (readLooseEntries handles fuel anchors (.entry :: rest)).map wrap
      else readEmpty properties anchors tokens
    | .blockSequence :: rest =>
      if place.inBlock then (readEntries handles fuel anchors rest).map wrap
      else readEmpty properties anchors tokens
    | .blockMapping :: rest =>
      if place.inBlock then (readPairs handles fuel anchors rest).map wrapMap
      else readEmpty properties anchors tokens
    | _ => readEmpty properties anchors tokens

/-- Reads the entries of a block sequence. -/
def readEntries (handles : Handles) :
    Nat → Anchors → List Token → Option (Read (List Document))
  | 0, _, _ => none
  | fuel + 1, anchors, tokens =>
    match tokens with
    | .blockEnd :: rest => some ⟨[], anchors, rest⟩
    | .entry :: rest =>
      let item : Option (Read Document) :=
        if endsEntry rest then some ⟨nothing, anchors, rest⟩
        else readNode handles ⟨true, false⟩ fuel anchors rest
      item.bind fun item =>
        (readEntries handles fuel item.anchors item.rest).map fun r =>
          { r with value := item.value :: r.value }
    | _ => none

/-- Reads entries that have no block of their own. -/
def readLooseEntries (handles : Handles) :
    Nat → Anchors → List Token → Option (Read (List Document))
  | 0, _, _ => none
  | fuel + 1, anchors, tokens =>
    match tokens with
    | .entry :: rest =>
      let item : Option (Read Document) :=
        if endsLooseEntry rest then some ⟨nothing, anchors, rest⟩
        else readNode handles ⟨true, false⟩ fuel anchors rest
      item.bind fun item =>
        (readLooseEntries handles fuel item.anchors item.rest).map fun r =>
          { r with value := item.value :: r.value }
    | _ => some ⟨[], anchors, tokens⟩

/-- Reads the pairs of a block mapping. -/
def readPairs (handles : Handles) :
    Nat → Anchors → List Token → Option (Read (List (Document × Document)))
  | 0, _, _ => none
  | fuel + 1, anchors, tokens =>
    match tokens with
    | .blockEnd :: rest => some ⟨[], anchors, rest⟩
    | .key :: rest =>
      let key : Option (Read Document) :=
        if endsPair rest then some ⟨nothing, anchors, rest⟩
        else readNode handles ⟨true, true⟩ fuel anchors rest
      key.bind fun key =>
        let value : Option (Read Document) := match key.rest with
          | .value :: rest =>
            if endsPair rest then some ⟨nothing, key.anchors, rest⟩
            else readNode handles ⟨true, true⟩ fuel key.anchors rest
          | rest => some ⟨nothing, key.anchors, rest⟩
        value.bind fun value =>
          (readPairs handles fuel value.anchors value.rest).map fun r =>
            { r with value := (key.value, value.value) :: r.value }
    | _ => none

/-- Reads the items of a sequence in brackets; one of them may be a single pair. -/
def readFlowItems (handles : Handles) (first : Bool) :
    Nat → Anchors → List Token → Option (Read (List Document))
  | 0, _, _ => none
  | fuel + 1, anchors, tokens =>
    match tokens with
    | .flowSequenceEnd :: rest => some ⟨[], anchors, rest⟩
    | _ =>
      let tokens? := if first then some tokens else match tokens with
        | .comma :: rest => some rest
        | _ => none
      match tokens? with
      | none => none
      | some (.flowSequenceEnd :: rest) => some ⟨[], anchors, rest⟩
      | some (.key :: rest) =>
        (readFlowPair handles .flowSequenceEnd fuel anchors rest).bind fun pair =>
          (readFlowItems handles false fuel pair.anchors pair.rest).map fun r =>
            { r with value := mapping [pair.value] :: r.value }
      | some tokens =>
        (readNode handles ⟨false, false⟩ fuel anchors tokens).bind fun item =>
          (readFlowItems handles false fuel item.anchors item.rest).map fun r =>
            { r with value := item.value :: r.value }

/-- Reads the pairs of a mapping in braces; a value may be left out, or the key's mark. -/
def readFlowPairs (handles : Handles) (first : Bool) :
    Nat → Anchors → List Token → Option (Read (List (Document × Document)))
  | 0, _, _ => none
  | fuel + 1, anchors, tokens =>
    match tokens with
    | .flowMappingEnd :: rest => some ⟨[], anchors, rest⟩
    | _ =>
      let tokens? := if first then some tokens else match tokens with
        | .comma :: rest => some rest
        | _ => none
      match tokens? with
      | none => none
      | some (.flowMappingEnd :: rest) => some ⟨[], anchors, rest⟩
      | some (.key :: rest) =>
        (readFlowPair handles .flowMappingEnd fuel anchors rest).bind fun pair =>
          (readFlowPairs handles false fuel pair.anchors pair.rest).map fun r =>
            { r with value := pair.value :: r.value }
      | some tokens =>
        (readNode handles ⟨false, false⟩ fuel anchors tokens).bind fun key =>
          (readFlowPairs handles false fuel key.anchors key.rest).map fun r =>
            { r with value := (key.value, nothing) :: r.value }

/-- Reads one pair behind the mark of its key. -/
def readFlowPair (handles : Handles) (close : Token) :
    Nat → Anchors → List Token → Option (Read (Document × Document))
  | 0, _, _ => none
  | fuel + 1, anchors, tokens =>
    let key : Option (Read Document) :=
      if endsFlowKey close tokens then some ⟨nothing, anchors, tokens⟩
      else readNode handles ⟨false, false⟩ fuel anchors tokens
    key.bind fun key =>
      let value : Option (Read Document) := match key.rest with
        | .value :: rest =>
          if endsFlowValue close rest then some ⟨nothing, key.anchors, rest⟩
          else readNode handles ⟨false, false⟩ fuel key.anchors rest
        | rest => some ⟨nothing, key.anchors, rest⟩
      value.map fun value => ⟨(key.value, value.value), value.anchors, value.rest⟩

end

/-! ## The document -/

/-- Takes one directive into account: the version, or a handle for tags. -/
def applyDirective (handles : Handles) : List String → Option Handles
  | ["YAML", version] => if version = "1.1" || version = "1.2" then some handles else none
  | ["TAG", handle, whole] =>
    if handles.any fun h => h.1 == handle && h != ("!", "!") && h != ("!!", coreTag) then none
    else some ((handle, whole) :: handles)
  | _ => none

/-- The directives at the front, and whether there was one. -/
def readDirectives (handles : Handles) : List Token → Option (Handles × Bool × List Token)
  | .directive parts :: rest =>
    (applyDirective handles parts).bind fun handles =>
      (readDirectives handles rest).map fun r => (r.1, true, r.2.2)
  | rest => some (handles, false, rest)

/-- The end of the text, after lines that end the document. -/
def atEnd : List Token → Bool
  | .documentEnd :: rest => atEnd rest
  | rest => rest.isEmpty

/-- The node of a document, which nothing may follow. -/
def readRoot (handles : Handles) (tokens : List Token) : Option Document :=
  (readNode handles ⟨true, false⟩ (4 * tokens.length + 4) [] tokens).bind fun r =>
    if atEnd r.rest then some r.value else none

/-- What stands in an explicit document. -/
def readExplicit (handles : Handles) (tokens : List Token) : Option Document :=
  match tokens with
  | [] => some nothing
  | .documentEnd :: rest => if atEnd rest then some nothing else none
  | .documentStart :: _ => none
  | .directive _ :: _ => none
  | _ => readRoot handles tokens

/-- What a text without any document holds. -/
def void : Document :=
  .leaf ⟨none, none, false, true, true⟩

/-- A document that is nested too deep can only be read by those who do not look everywhere. -/
def limited (document : Document) : Document :=
  if document.depth ≤ 128 then document else .special document

/-- The only document of a text. -/
def ofTokens? (tokens : List Token) : Option Document :=
  match tokens with
  | [] => some void
  | _ =>
    (readDirectives defaultHandles tokens).bind fun (handles, hasDirectives, rest) =>
      match rest with
      | .documentStart :: rest => readExplicit handles rest
      | _ => if hasDirectives then none else readRoot handles tokens

/-- The document of a text, if the text is well formed. -/
def ofText? (text : String) : Option Document :=
  ((Token.ofText? text).bind ofTokens?).map limited

end SlashCommands.Yaml
