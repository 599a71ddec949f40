import SlashCommands.Document
import SlashCommands.Document.Toml.Quoted
import SlashCommands.Numeric.Decimal

/-!
# Numbers, dates and words of TOML

An integer has a sign, or a base in front, and fits 64 bits; underscores may stand between its
digits. A date is a map with one key of its own.
-/

namespace SlashCommands.Toml

/-- Digits of a class with single underscores between them. The flag says whether a digit came right
before. -/
def readDigits (isDigit : Char → Bool) (after : Bool) : List Char → Option (List Char × List Char)
  | [] => if after then some ([], []) else none
  | c :: rest =>
    if isDigit c then (readDigits isDigit true rest).map fun r => (c :: r.1, r.2)
    else if c = '_' && after then readDigits isDigit false rest
    else if after then some ([], c :: rest)
    else none

/-- The digits numbers and dates are written with. -/
def isAsciiDigit (c : Char) : Bool :=
  Text.isAsciiDigit c

/-- A sign at the front of a text, if there is one. -/
def takeSign? : List Char → Option Char × List Char
  | '+' :: rest => (some '+', rest)
  | '-' :: rest => (some '-', rest)
  | cs => (none, cs)

/-- The digits of a decimal integer; a leading zero stands alone. -/
def readDecimal : List Char → Option (List Char × List Char)
  | '0' :: rest => some (['0'], rest)
  | cs => readDigits isAsciiDigit false cs

/-- An integer in decimal digits, with or without a sign. -/
def readDecimalInt (cs : List Char) : Option (Int × List Char) :=
  let (sign, cs) := takeSign? cs
  (readDecimal cs).map fun (digits, rest) =>
    let n : Int := Decimal.digitsValue digits
    (if sign = some '-' then -n else n, rest)

/-- The digits of a base up to sixteen, in either case. -/
def isDigitOf (base : Nat) (c : Char) : Bool :=
  (Json.hexDigit? c).any (· < base)

/-- The digits of an integer behind the prefix of its base. -/
def readBased (base : Nat) (cs : List Char) : Option (Int × List Char) :=
  match readDigits (isDigitOf base) false cs with
  | some (digits, rest) =>
    (digits.foldlM (fun value c => (Json.hexDigit? c).map fun d => base * value + d) 0).map
      fun n => ((n : Int), rest)
  | none => none

/-- An integer, of any size. -/
def readInt : List Char → Option (Int × List Char)
  | '0' :: 'x' :: rest => readBased 16 rest
  | '0' :: 'o' :: rest => readBased 8 rest
  | '0' :: 'b' :: rest => readBased 2 rest
  | cs => readDecimalInt cs

/-- An integer that fits in 64 bits, as a document. -/
def integer? (cs : List Char) : Option (Document × List Char) :=
  (readInt cs).bind fun (value, rest) =>
    if Int64.minValue.toInt ≤ value && value ≤ Int64.maxValue.toInt then
      some (.leaf (if 0 ≤ value then .ofNat value.toNat else .other), rest)
    else none

/-! ## Floats -/

/-- The digits behind a decimal point. -/
def readFraction : List Char → Option (List Char × List Char)
  | '.' :: rest => readDigits isAsciiDigit false rest
  | _ => none

/-- The exponent behind its letter. -/
def readExponent : List Char → Option (Int × List Char)
  | c :: rest =>
    if c = 'e' || c = 'E' then
      let (sign, rest) := takeSign? rest
      (readDigits isAsciiDigit false rest).map fun (digits, rest) =>
        let n : Int := Decimal.digitsValue digits
        (if sign = some '-' then -n else n, rest)
    else none
  | [] => none

/-- A numeral with a fraction or an exponent, or both. A positive one has to be finite. -/
def readNumeral (cs : List Char) : Option (List Char) :=
  let (sign, cs) := takeSign? cs
  (readDecimal cs).bind fun (whole, rest) =>
    let parts := match readFraction rest with
      | some (fraction, rest) =>
        match readExponent rest with
        | some (exponent, rest) => some (fraction, exponent, rest)
        | none => some (fraction, 0, rest)
      | none => (readExponent rest).map fun (exponent, rest) => ([], exponent, rest)
    parts.bind fun (fraction, exponent, rest) =>
      let digits := whole ++ fraction
      let x := Binary64.ofDecimal false (Decimal.digitsValue digits) (exponent - fraction.length)
        digits.length
      if x.isFinite || sign = some '-' then some rest else none

/-- An infinity or what is no number, with or without a sign. -/
def readSpecial (cs : List Char) : Option (List Char) :=
  match (takeSign? cs).2 with
  | 'i' :: 'n' :: 'f' :: rest => some rest
  | 'n' :: 'a' :: 'n' :: rest => some rest
  | _ => none

/-- A number that is not an integer, as a document. -/
def float? (cs : List Char) : Option (Document × List Char) :=
  (readNumeral cs <|> readSpecial cs).map fun rest => (.leaf .other, rest)

/-! ## Dates and times -/

/-- A number of exactly so many digits in a range. -/
def readField (width least most : Nat) (cs : List Char) : Option (Nat × List Char) :=
  let digits := cs.take width
  if digits.length = width && digits.all isAsciiDigit then
    let n := Decimal.digitsValue digits
    if least ≤ n && n ≤ most then some (n, cs.drop width) else none
  else none

/-- Whether February has one day more. -/
def isLeapYear (year : Nat) : Bool :=
  year % 4 = 0 && (year % 100 != 0 || year % 400 = 0)

/-- How many days a month has. -/
def daysIn (year month : Nat) : Nat :=
  if month = 2 then (if isLeapYear year then 29 else 28)
  else if month = 4 || month = 6 || month = 9 || month = 11 then 30
  else 31

/-- A date of the calendar. -/
def readDate (cs : List Char) : Option (List Char) :=
  match readField 4 0 9999 cs with
  | some (year, '-' :: rest) =>
    match readField 2 1 12 rest with
    | some (month, '-' :: rest) => (readField 2 1 (daysIn year month) rest).map (·.2)
    | _ => none
  | _ => none

/-- Fractions of a second, to any number of digits. A point without digits belongs to the seconds.
-/
def readSecondFraction : List Char → Option (List Char)
  | '.' :: c :: rest => if isAsciiDigit c then some (rest.dropWhile isAsciiDigit) else none
  | '.' :: [] => none
  | cs => some cs

/-- A time of day. A leap second is allowed for. -/
def readTime (cs : List Char) : Option (List Char) :=
  match readField 2 0 23 cs with
  | some (_, ':' :: rest) =>
    match readField 2 0 59 rest with
    | some (_, ':' :: rest) => (readField 2 0 60 rest).bind fun r => readSecondFraction r.2
    | _ => none
  | _ => none

/-- The distance from the standard time, or the mark of the standard time itself. -/
def readOffset (cs : List Char) : Option (List Char) :=
  match cs with
  | 'Z' :: rest => some rest
  | 'z' :: rest => some rest
  | _ =>
    match takeSign? cs with
    | (some _, rest) =>
      match readField 2 0 23 rest with
      | some (_, ':' :: rest) => (readField 2 0 59 rest).map (·.2)
      | _ => none
    | (none, _) => none

/-- What may stand between a date and its time. -/
def isTimeMark (c : Char) : Bool :=
  c = 'T' || c = 't' || c = ' '

/-- The time behind a date, if there is one. -/
def readTimePart (cs : List Char) : List Char :=
  match cs with
  | c :: rest =>
    if isTimeMark c then
      match readTime rest with
      | some rest => (readOffset rest).getD rest
      | none => cs
    else cs
  | [] => []

/-- The field under which a date is handed on as a map. -/
def dateKey : String := "$__toml_private_datetime"

/-- A date as a document. -/
def dateDocument (cs rest : List Char) : Document :=
  .map [(dateKey, .leaf (.ofString (String.ofList (cs.take (cs.length - rest.length)))))]

/-- A date, a time or both, as a document. -/
def date? (cs : List Char) : Option (Document × List Char) :=
  match readDate cs with
  | some rest =>
    let rest := readTimePart rest
    some (dateDocument cs rest, rest)
  | none => (readTime cs).map fun rest => (dateDocument cs rest, rest)

/-- A word, a date or a number. -/
def readScalar (cs : List Char) : Option (Document × List Char) :=
  match cs with
  | 't' :: 'r' :: 'u' :: 'e' :: rest => some (.leaf .other, rest)
  | 'f' :: 'a' :: 'l' :: 's' :: 'e' :: rest => some (.leaf .other, rest)
  | _ => (date? cs <|> float? cs) <|> integer? cs

end SlashCommands.Toml
