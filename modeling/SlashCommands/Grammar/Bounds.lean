import SlashCommands.Argument

/-!
# Bound expressions

A bound expression compares the value `x` or the length `l` with numerals, as in `1 < x <= 5`. Each
of four patterns is looked for in the whole text, from the left and without overlaps: a lower bound
with the variable first or last, then an upper bound with the variable first or last. All of them
together have to cover the text, blanks and equals signs aside. The strict and the wide comparison
mean the same, and the tightest bound of each side is kept.
-/

namespace SlashCommands.Bounds

open Text

/-- What a comparison is about. -/
inductive Measure
  | value
  | length
deriving DecidableEq

/-- Which end of a range a comparison sets. -/
inductive Side
  | min
  | max
deriving DecidableEq

/-- One comparison of a bound expression: what is bounded, on which side, by which number. -/
structure Comparison where
  measure : Measure
  side : Side
  numeral : List Char
deriving DecidableEq

/-- What a letter of a bound expression stands for. -/
def measureOf? (c : Char) : Option Measure :=
  if c = 'x' then some .value else if c = 'l' then some .length else none

/-- Whether no word goes on with these characters. -/
def endsWord (rest : List Char) : Bool :=
  match rest with
  | [] => true
  | c :: _ => !isWordChar c

/-- Splits off digits, in any script, with an optional fraction. -/
def takeUnsigned (cs : List Char) : Option (List Char × List Char) :=
  let whole := cs.takeWhile isDecimalDigit
  let rest := cs.dropWhile isDecimalDigit
  if whole.isEmpty then none
  else match rest with
    | '.' :: more =>
      let fraction := more.takeWhile isDecimalDigit
      if fraction.isEmpty then some (whole, rest)
      else some (whole ++ '.' :: fraction, more.dropWhile isDecimalDigit)
    | _ => some (whole, rest)

/-- A numeral at the front of a text, with its sign. -/
def takeNumeral : List Char → Option (List Char × List Char)
  | '-' :: cs => (takeUnsigned cs).map fun n => ('-' :: n.1, n.2)
  | cs => takeUnsigned cs

/-- Splits off a comparison sign, its optional equals sign and the blanks around it. -/
def takeSign (sign : Char) (cs : List Char) : Option (List Char) :=
  match trimStart cs with
  | c :: rest =>
    if c = sign then
      match rest with
      | '=' :: more => some (trimStart more)
      | _ => some (trimStart rest)
    else none
  | [] => none

/-- A variable, a sign and a numeral; the variable begins a word. -/
def variableFirst (sign : Char) (side : Side) (before : Option Char) (cs : List Char) :
    Option (Comparison × List Char) :=
  match cs with
  | [] => none
  | c :: rest => do
    let measure ← measureOf? c
    if before.any isWordChar then none
    let after ← takeSign sign rest
    let (numeral, rest) ← takeNumeral after
    some (⟨measure, side, numeral⟩, rest)

/-- A numeral, a sign and a variable; the variable ends a word. -/
def numeralFirst (sign : Char) (side : Side) (cs : List Char) :
    Option (Comparison × List Char) := do
  let (numeral, rest) ← takeNumeral cs
  let after ← takeSign sign rest
  match after with
  | [] => none
  | c :: rest =>
    let measure ← measureOf? c
    if endsWord rest then some (⟨measure, side, numeral⟩, rest) else none

/-- Matches one form of comparison at a place, given the character in front of it. -/
abbrev Pattern := Option Char → List Char → Option (Comparison × List Char)

/-- The four patterns in the order they are looked for. -/
def patterns : List Pattern :=
  [variableFirst '>' .min, fun _ => numeralFirst '<' .min,
   variableFirst '<' .max, fun _ => numeralFirst '>' .max]

/-- What one pattern finds from left to right, and for each character whether it is covered. The
first `skip` characters belong to the match before. -/
def scan (pattern : Pattern) : Option Char → Nat → List Char → List Comparison × List Bool
  | _, _, [] => ([], [])
  | _, skip + 1, c :: cs =>
    let rest := scan pattern (some c) skip cs
    (rest.1, true :: rest.2)
  | before, 0, c :: cs =>
    match pattern before (c :: cs) with
    | some (found, after) =>
      let rest := scan pattern (some c) (cs.length - after.length) cs
      (found :: rest.1, true :: rest.2)
    | none =>
      let rest := scan pattern (some c) 0 cs
      (rest.1, false :: rest.2)

/-- All comparisons of an expression, form by form. -/
def comparisons (spec : List Char) : List Comparison :=
  patterns.flatMap fun p => (scan p none 0 spec).1

/-- The characters that every one of the masks leaves uncovered. -/
def uncovered (spec : List Char) (masks : List (List Bool)) : List Char :=
  match spec with
  | [] => []
  | c :: cs =>
    let rest := uncovered cs (masks.map List.tail)
    if masks.any fun mask => mask.headD false then rest else c :: rest

/-- What no comparison accounts for. -/
def leftover (spec : List Char) : List Char :=
  (uncovered spec (patterns.map fun p => (scan p none 0 spec).2)).filter fun c =>
    !isBlank c && c != '='

/-- The place of a number in the order bounds are compared by. -/
def order (n : Number) : Int :=
  n.toBinary64.totalKey

/-- The greatest of the numbers in the order of doubles, the last of equal ones. -/
def greatest : List Number → Option Number
  | [] => none
  | n :: ns => some (ns.foldl (fun best m => if order m < order best then best else m) n)

/-- The least of the numbers in the order of doubles, the first of equal ones. -/
def least : List Number → Option Number
  | [] => none
  | n :: ns => some (ns.foldl (fun best m => if order m < order best then m else best) n)

/-- The side and the number of a comparison, unless the numeral is none. -/
def readNumeral (c : Comparison) : Except GrammarFault (Side × Number) :=
  match Number.ofChars? c.numeral with
  | some n => .ok (c.side, n)
  | none => .error (.badNumber (String.ofList c.numeral))

/-- A bound on a length: a whole number that fits sixteen bits. -/
def lengthBound (name : String) : Option Number → Except GrammarFault (Option UInt16)
  | none => .ok none
  | some (.int value) =>
    if 0 ≤ value.toInt ∧ value.toInt < 65536 then .ok (some (.ofNat value.toInt.toNat))
    else .error (.lengthOutOfRange (int64Text value) name)
  | some (.float value) => .error (.lengthNotWhole value.text name)

/-- The argument that a bound expression declares. -/
def read (name : String) (spec : List Char) (required : Bool) : Except GrammarFault Argument := do
  let found := comparisons spec
  if found.isEmpty then throw (.noBound name)
  let rest := leftover spec
  if !rest.isEmpty then throw (.strayInBounds (String.ofList rest) name)
  let isLength := found.any fun c => c.measure == .length
  if isLength && found.any fun c => c.measure == .value then throw (.mixedBounds name)
  let bounds ← found.mapM readNumeral
  let mins := (bounds.filter fun b => b.1 == .min).map (·.2)
  let maxs := (bounds.filter fun b => b.1 == .max).map (·.2)
  let min := greatest mins
  let max := least maxs
  if isLength then
    let minLength ← lengthBound name min
    let maxLength ← lengthBound name max
    return { Argument.plain name .string required with minLength, maxLength }
  else
    let type := if bounds.all fun b => b.2.isInteger then ArgumentType.integer else .float
    return { Argument.plain name type required with min, max }.coerceLiterals

end SlashCommands.Bounds
