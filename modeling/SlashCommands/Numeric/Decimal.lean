import SlashCommands.Numeric.Binary64
import SlashCommands.Text.Letters

/-!
# Reading decimal numerals

`readInt` reads a sign and digits, `readBinary64` reads digits with a point and an exponent and
rounds the exact value to the nearest double. Digits are ASCII digits.
-/

namespace SlashCommands.Decimal

open Text

/-- The value of a decimal digit. -/
def digitValue (c : Char) : Nat :=
  c.toNat - '0'.toNat

/-- The value of a sequence of digits, most significant first. -/
def digitsValue (digits : List Char) : Nat :=
  digits.foldl (fun value c => 10 * value + digitValue c) 0

/-- Whether a text is made of decimal digits, with at least one. -/
def allDigits (cs : List Char) : Bool :=
  !cs.isEmpty && cs.all isAsciiDigit

/-- Splits off a leading sign; `true` is minus. -/
def takeSign : List Char → Bool × List Char
  | '-' :: cs => (true, cs)
  | '+' :: cs => (false, cs)
  | cs => (false, cs)

/-- The number of a text of digits. -/
def readNat (cs : List Char) : Option Nat :=
  if allDigits cs then some (digitsValue cs) else none

/-- An optional sign and at least one digit. -/
def readInt (cs : List Char) : Option Int :=
  let (negative, digits) := takeSign cs
  (readNat digits).map fun n => if negative then -(n : Int) else n

/-- The exponent after `e`: nothing at all, or a signed numeral. -/
def readExponent : List Char → Option Int
  | [] => some 0
  | c :: cs => if c = 'e' ∨ c = 'E' then readInt cs else none

/-- Digits with an optional point, at least one digit in all, and an optional exponent. -/
def readUnsigned (negative : Bool) (cs : List Char) : Option Binary64 :=
  let whole := cs.takeWhile isAsciiDigit
  let rest := cs.dropWhile isAsciiDigit
  let (fraction, rest) := match rest with
    | '.' :: more => (more.takeWhile isAsciiDigit, more.dropWhile isAsciiDigit)
    | _ => ([], rest)
  if whole.isEmpty && fraction.isEmpty then none
  else (readExponent rest).map fun exponent =>
    let digits := whole ++ fraction
    .ofDecimal negative (digitsValue digits) (exponent - fraction.length) digits.length

/-- The text with the capitals of ASCII made small. -/
def lowerAscii (cs : List Char) : List Char :=
  cs.map fun c => if 'A' ≤ c && c ≤ 'Z' then Char.ofNat (c.toNat + 32) else c

/-- A double, also in the words for infinity and for what is no number. -/
def readBinary64 (cs : List Char) : Option Binary64 :=
  let (negative, rest) := takeSign cs
  let word := lowerAscii rest
  if word = "inf".toList ∨ word = "infinity".toList then
    some (.ofMagnitude negative Binary64.infinity)
  else if word = "nan".toList then
    some (.ofMagnitude negative (Binary64.infinity + Nat.pow 2 51))
  else readUnsigned negative rest

end SlashCommands.Decimal
