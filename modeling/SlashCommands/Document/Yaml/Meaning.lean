import SlashCommands.Document
import SlashCommands.Document.Yaml.Token
import SlashCommands.Numeric.Decimal

/-!
# What YAML scalars mean

A plain scalar is a null, a truth value, a number or else a text, and can also be read as a text
where one is wanted; any other scalar is a text. A tag can force a scalar to be one of these. A tag
of its own, and a number of more than 64 bits, make it a special value.
-/

namespace SlashCommands.Yaml

/-- The words for the absent value. -/
def isNullWord (text : String) : Bool :=
  text = "null" || text = "Null" || text = "NULL" || text = "~"

/-- The words for the truth values. -/
def isTruthWord (text : String) : Bool :=
  text = "true" || text = "True" || text = "TRUE" || text = "false" || text = "False"
    || text = "FALSE"

/-- The rest after a sign or base in front. -/
def after? (lead : String) (cs : List Char) : Option (List Char) :=
  if lead.toList.isPrefixOf cs then some (cs.drop lead.length) else none

/-- Zeros in front of a decimal numeral make it a text. -/
def hasSuperfluousZero (cs : List Char) : Bool :=
  let digits := (Decimal.takeSign cs).2
  1 < digits.length && digits.head? = some '0' && digits.all Text.isAsciiDigit

/-- The value of a digit in a base, in either case. -/
def digitOf? (base : Nat) (c : Char) : Option Nat :=
  ((Decimal.lowerAscii [c]).head?.bind Json.hexDigit?).filter (· < base)

/-- The number that digits stand for in a base. -/
def readBase (base : Nat) (cs : List Char) : Option Nat :=
  if cs.isEmpty then none
  else cs.foldlM (fun value c => (digitOf? base c).map fun d => base * value + d) 0

/-- A numeral after its sign, in any base; a leading zero is refused by `whole`. -/
def readMagnitude (whole : List Char) (cs : List Char) : Option Nat :=
  let based := ((after? "0x" cs).bind (readBase 16) <|> (after? "0o" cs).bind (readBase 8))
    <|> (after? "0b" cs).bind (readBase 2)
  based <|> if hasSuperfluousZero whole then none else readBase 10 cs

/-- The integer that a plain scalar stands for. -/
def readInteger (text : String) : Option Int :=
  let cs := text.toList
  match cs with
  | '-' :: rest => (readMagnitude cs rest).map fun n => -(n : Int)
  | '+' :: rest => (readMagnitude cs rest).map fun n => (n : Int)
  | _ => (readMagnitude cs cs).map fun n => (n : Int)

/-- Whether a scalar can be read as a floating-point number. -/
def isFloat (text : String) : Bool :=
  let cs := text.toList
  let unsigned := (after? "+" cs).getD cs
  let twoSigns := unsigned.length < cs.length && (Decimal.takeSign unsigned).2 != unsigned
  let words := [".inf", ".Inf", ".INF"]
  words.contains (String.ofList unsigned) || (words.map ("-" ++ ·)).contains text
    || [".nan", ".NaN", ".NAN"].contains text
    || (!twoSigns && (Decimal.readBinary64 unsigned).any (·.isFinite))

/-- Whether an integer fits into so many bits, with a sign or without one. -/
def fitsIn (bits : Nat) (i : Int) : Bool :=
  -(Nat.pow 2 (bits - 1) : Int) ≤ i && i < (Nat.pow 2 bits : Int)

/-- A scalar that is a text and nothing else. -/
def textScalar (text : String) : Document :=
  .leaf (.ofString text)

/-- A scalar that is a number, a truth value or a null, but can be read as a text. -/
def wordScalar (text : String) (count : Option Nat) (isNull : Bool) : Document :=
  .leaf ⟨some text, count, false, isNull, text.isEmpty⟩

/-- An integer that is not negative. -/
def natOf? (i : Int) : Option Nat :=
  if 0 ≤ i then some i.toNat else none

/-- The number that a plain scalar stands for where one is wanted. A minus sign makes it none. -/
def countOf? (text : String) : Option Nat :=
  if text.startsWith "-" then none else (readInteger text).bind natOf?

/-- A plain scalar without a tag. -/
def plainScalar (text : String) : Document :=
  if text.isEmpty || isNullWord text then wordScalar text none true
  else if isTruthWord text then wordScalar text none false
  else
    match readInteger text with
    | some i =>
      let scalar := wordScalar text (countOf? text) false
      if fitsIn 64 i then scalar
      else if fitsIn 128 i then .special scalar
      else if isFloat text then scalar
      else textScalar text
    | none =>
      if isFloat text && !hasSuperfluousZero text.toList then wordScalar text none false
      else textScalar text

/-- What the tags of the core schema begin with. -/
def coreTag : String := "tag:yaml.org,2002:"

/-- A scalar that a tag says is of a kind; it is special if it is not. -/
def taggedScalar (style : Style) (text tag : String) : Document :=
  let count := if style = .plain || (style = .literal && tag = coreTag ++ "int") then countOf? text
    else none
  let scalar : Scalar := ⟨some text, count, false, false, style = .plain && text.isEmpty⟩
  let only := fun (holds : Bool) => if holds then Document.leaf scalar else .special (.leaf scalar)
  if tag.startsWith "!" then .special (.leaf scalar)
  else if tag = coreTag ++ "bool" then only (isTruthWord text)
  else if tag = coreTag ++ "int" then only ((readInteger text).any (fitsIn 64))
  else if tag = coreTag ++ "float" then only (isFloat text)
  else if tag = coreTag ++ "null" then
    if isNullWord text then .leaf { scalar with isNull := style = .plain }
    else .special (.leaf scalar)
  else .leaf { scalar with isText := true }

/-- What a scalar means, with its tag if it has one. -/
def meaning (style : Style) (text : String) (tag : Option String) : Document :=
  match tag with
  | some tag => taggedScalar style text tag
  | none => if style = .plain then plainScalar text else textScalar text

/-- What stands where nothing was written. -/
def nothing : Document :=
  plainScalar ""

end SlashCommands.Yaml
