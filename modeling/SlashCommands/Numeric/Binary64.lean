/-!
# Double-precision numbers

A `Binary64` is a sign and the 63 bits under it, read as a natural number. Among numbers of one sign
the order of magnitudes is the order of these naturals, so comparison is a comparison of integers.
Every finite magnitude is a whole number of units of `2 ^ -1074`; `nearestMagnitude` rounds a
quotient of naturals to the nearest magnitude, ties to the even one, in exact arithmetic.
-/

namespace SlashCommands

/-- A double-precision number: its sign and the bits below the sign. -/
structure Binary64 where
  negative : Bool
  magnitude : Nat
  magnitude_lt : magnitude < Nat.pow 2 63
deriving DecidableEq

namespace Binary64

/-- Magnitudes from here on are no finite numbers: this one is infinite, the ones above are no
number. -/
def infinity : Nat := 2047 * Nat.pow 2 52

/-- A sign and 63 bits below it, the higher ones cut off. -/
def ofMagnitude (negative : Bool) (magnitude : Nat) : Binary64 :=
  ⟨negative, magnitude % Nat.pow 2 63, Nat.mod_lt _ (Nat.pow_pos (by decide))⟩

instance : Inhabited Binary64 := ⟨ofMagnitude false 0⟩

/-- Whether it is no number. -/
def isNaN (x : Binary64) : Bool :=
  infinity < x.magnitude

/-- Whether it is a number, and not an infinite one. -/
def isFinite (x : Binary64) : Bool :=
  x.magnitude < infinity

/-- A finite magnitude in units of `2 ^ -1074`. -/
def unitsOf (magnitude : Nat) : Nat :=
  let exponent := magnitude / Nat.pow 2 52
  let fraction := magnitude % Nat.pow 2 52
  if exponent = 0 then fraction else (Nat.pow 2 52 + fraction) * Nat.pow 2 (exponent - 1)

/-- The magnitude of a number in units of `2 ^ -1074`. -/
def units (x : Binary64) : Nat :=
  unitsOf x.magnitude

/-- `num / den` to the nearest natural number; a tie goes to the even neighbour. -/
def roundDiv (num den : Nat) : Nat :=
  let floor := num / den
  let twice := 2 * (num % den)
  if twice < den then floor
  else if den < twice then floor + 1
  else floor + floor % 2

/-- The magnitude nearest to `num / den`, infinity beyond the largest finite one. -/
def nearestMagnitude (num den : Nat) : Nat :=
  let scaled := num * Nat.pow 2 1074
  let exponent := (scaled / den).log2 - 52
  min (exponent * Nat.pow 2 52 + roundDiv scaled (den * Nat.pow 2 exponent)) infinity

/-- The double nearest to a quotient, on either side of zero. -/
def nearest (negative : Bool) (num den : Nat) : Binary64 :=
  ofMagnitude negative (nearestMagnitude num den)

/-- The double nearest to a natural number. -/
def ofNat (n : Nat) : Binary64 :=
  nearest false n 1

/-- The double nearest to an integer. -/
def ofInt (i : Int) : Binary64 :=
  nearest (i < 0) i.natAbs 1

/-- `± digits · 10 ^ exponent`, where the digits are `count` many, zeros in front among them. Below
some exponent the value is zero whatever the digits are, and above another it is infinite if one of
them is not zero, so no power is larger than it has to be. -/
def ofDecimal (negative : Bool) (digits : Nat) (exponent : Int) (count : Nat) : Binary64 :=
  if digits = 0 ∨ exponent + count < -400 then ofMagnitude negative 0
  else if 400 < exponent then ofMagnitude negative infinity
  else nearest negative (digits * Nat.pow 10 exponent.toNat) (Nat.pow 10 (-exponent).toNat)

/-- The key of the numeric order: both zeros have key zero. -/
def key (x : Binary64) : Int :=
  if x.negative then -(x.magnitude : Int) else x.magnitude

/-- Numeric order. What is no number is not below, above or equal to anything. -/
def lt (x y : Binary64) : Bool :=
  !x.isNaN && !y.isNaN && x.key < y.key

/-- The key of the total order, which puts the negative zero below the positive one. -/
def totalKey (x : Binary64) : Int :=
  if x.negative then -(x.magnitude : Int) - 1 else x.magnitude

/-- Whether the number has no fractional part. -/
def isWhole (x : Binary64) : Bool :=
  x.isFinite && x.units % Nat.pow 2 1074 == 0

/-- The largest finite number. -/
def greatest : Binary64 :=
  ofMagnitude false (infinity - 1)

end Binary64

end SlashCommands
