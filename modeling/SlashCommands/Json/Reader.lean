import SlashCommands.Json
import SlashCommands.Numeric.Decimal

/-!
# Reading JSON texts

A text holds one value and nothing after it. An integer that fits a 64-bit word stays an integer,
any other number is a double. What is well formed but has no value, such as a number that is too
large or half of a surrogate pair, is read as a double that is not finite, so that it does no harm
in a place nobody looks at; `Json.ofText?` refuses it everywhere, and values nested more than 127
deep.
-/

namespace SlashCommands.Json

open Text

/-- The blanks between tokens. -/
def isSpace (c : Char) : Bool :=
  c = ' ' || c = '\n' || c = '\t' || c = '\r'

/-- The text without the blanks at its beginning. -/
def skipSpace (cs : List Char) : List Char :=
  cs.dropWhile isSpace

/-- The value of a hexadecimal digit, in either case. -/
def hexDigit? (c : Char) : Option Nat :=
  if isAsciiDigit c then some (c.toNat - '0'.toNat)
  else if 'a' ≤ c && c ≤ 'f' then some (c.toNat - 'a'.toNat + 10)
  else if 'A' ≤ c && c ≤ 'F' then some (c.toNat - 'A'.toNat + 10)
  else none

/-- The value of four hexadecimal digits. -/
def hex4? (a b c d : Char) : Option Nat := do
  let a ← hexDigit? a
  let b ← hexDigit? b
  let c ← hexDigit? c
  let d ← hexDigit? d
  return ((a * 16 + b) * 16 + c) * 16 + d

/-- The character behind an escape of one letter. -/
def simpleEscape? (c : Char) : Option Char :=
  match c with
  | '\x22' => some '\x22'
  | '\\' => some '\\'
  | '/' => some '/'
  | 'b' => some '\x08'
  | 'f' => some '\x0c'
  | 'n' => some '\n'
  | 'r' => some '\r'
  | 't' => some '\t'
  | _ => none

/-- The characters with these codes, if each surrogate is one half of a pair. -/
def joinPairs : List Nat → Option (List Char)
  | [] => some []
  | code :: codes =>
    if 0xD800 ≤ code ∧ code ≤ 0xDFFF then
      match codes with
      | low :: codes =>
        if code ≤ 0xDBFF ∧ 0xDC00 ≤ low ∧ low ≤ 0xDFFF then
          (joinPairs codes).map
            (Char.ofNat (0x10000 + (code - 0xD800) * 0x400 + (low - 0xDC00)) :: ·)
        else none
      | [] => none
    else (joinPairs codes).map (Char.ofNat code :: ·)

/-- The codes of the characters up to the closing quote, and what follows it. -/
def readCodes : List Char → Option (List Nat × List Char)
  | [] => none
  | '\x22' :: rest => some ([], rest)
  | '\\' :: 'u' :: a :: b :: c :: d :: rest =>
    match hex4? a b c d with
    | some code => (readCodes rest).map fun r => (code :: r.1, r.2)
    | none => none
  | '\\' :: c :: rest =>
    match simpleEscape? c with
    | some escaped => (readCodes rest).map fun r => (escaped.toNat :: r.1, r.2)
    | none => none
  | c :: rest =>
    if c.toNat < 32 || c = '\\' then none
    else (readCodes rest).map fun r => (c.toNat :: r.1, r.2)

/-- The text up to the closing quote, if it is one, and what follows it. -/
def readQuoted (cs : List Char) : Option (Option String × List Char) :=
  (readCodes cs).map fun r => ((joinPairs r.1).map String.ofList, r.2)

/-- Stands for what is well formed but has no value. -/
def senseless : Json :=
  float (.ofMagnitude false (Binary64.infinity + 1))

/-- Whether the digits before the point have no superfluous zero. -/
def isPlainWhole (digits : List Char) : Bool :=
  match digits with
  | [] => false
  | c :: rest => c != '0' || rest.isEmpty

/-- The number at the front: an integer without point and exponent if it fits, else a double. -/
def readNumber (negative : Bool) (cs : List Char) : Option (Json × List Char) :=
  let whole := cs.takeWhile isAsciiDigit
  let rest := cs.dropWhile isAsciiDigit
  if !isPlainWhole whole then none
  else
    let (fraction, hasPoint, rest) := match rest with
      | '.' :: more => (more.takeWhile isAsciiDigit, true, more.dropWhile isAsciiDigit)
      | _ => ([], false, rest)
    let (exponent, hasExponent, rest) := match rest with
      | c :: more =>
        if c = 'e' || c = 'E' then
          let (minus, digits) := Decimal.takeSign more
          let value := (Decimal.readNat (digits.takeWhile isAsciiDigit)).map fun n =>
            if minus then -(n : Int) else n
          (value, true, digits.dropWhile isAsciiDigit)
        else (some 0, false, rest)
      | [] => (some 0, false, rest)
    if hasPoint && fraction.isEmpty then none
    else
      let value := Decimal.digitsValue whole
      if !hasPoint && !hasExponent && !negative && value < Nat.pow 2 64 then some (int value, rest)
      else if !hasPoint && !hasExponent && negative && 0 < value && value ≤ Nat.pow 2 63 then
        some (int (-(value : Int)), rest)
      else exponent.map fun exponent =>
        let digits := whole ++ fraction
        (float (.ofDecimal negative (Decimal.digitsValue digits) (exponent - fraction.length)
          digits.length), rest)

mutual

/-- One value at the front of a text. The fuel bounds the number of steps. -/
def readValue : Nat → List Char → Option (Json × List Char)
  | 0, _ => none
  | fuel + 1, cs =>
    match skipSpace cs with
    | 'n' :: 'u' :: 'l' :: 'l' :: rest => some (null, rest)
    | 't' :: 'r' :: 'u' :: 'e' :: rest => some (bool true, rest)
    | 'f' :: 'a' :: 'l' :: 's' :: 'e' :: rest => some (bool false, rest)
    | '\x22' :: rest => (readQuoted rest).map fun r => ((r.1.map str).getD senseless, r.2)
    | '-' :: rest => readNumber true rest
    | '[' :: rest =>
      match skipSpace rest with
      | ']' :: rest => some (arr [], rest)
      | rest => (readItems fuel rest).map fun r => (arr r.1, r.2)
    | '\x7b' :: rest =>
      match skipSpace rest with
      | '\x7d' :: rest => some (obj [], rest)
      | rest => (readFields fuel rest).map fun r => ((r.1.map obj).getD senseless, r.2)
    | rest => readNumber false rest

/-- Values between commas up to the closing bracket. -/
def readItems : Nat → List Char → Option (List Json × List Char)
  | 0, _ => none
  | fuel + 1, cs =>
    match readValue fuel cs with
    | none => none
    | some (item, rest) =>
      match skipSpace rest with
      | ']' :: rest => some ([item], rest)
      | ',' :: rest => (readItems fuel rest).map fun r => (item :: r.1, r.2)
      | _ => none

/-- Named values between commas up to the closing brace, if each of the names is a text. -/
def readFields : Nat → List Char → Option (Option (List (String × Json)) × List Char)
  | 0, _ => none
  | fuel + 1, cs =>
    match skipSpace cs with
    | '\x22' :: rest =>
      match readQuoted rest with
      | none => none
      | some (name, rest) =>
        match skipSpace rest with
        | ':' :: rest =>
          match readValue fuel rest with
          | none => none
          | some (value, rest) =>
            let field := name.map fun name => (name, value)
            match skipSpace rest with
            | '\x7d' :: rest => some (field.map fun field => [field], rest)
            | ',' :: rest =>
              (readFields fuel rest).map fun r =>
                (field.bind fun field => r.1.map (field :: ·), r.2)
            | _ => none
        | _ => none
    | _ => none

end

/-- The one value that a text holds, which may be senseless in parts. -/
def readText (text : String) : Option Json :=
  let cs := text.toList
  match readValue (2 * cs.length + 2) cs with
  | some (value, rest) => if (skipSpace rest).isEmpty then some value else none
  | none => none

/-- The one value that a text holds. -/
def ofText? (text : String) : Option Json :=
  (readText text).filter isSound

end SlashCommands.Json
