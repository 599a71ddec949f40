import SlashCommands.Text.Blank

/-!
# Failures

A failure is an error with the causes behind it, a panic, or a time limit that ran out. A short
report shows the outermost text of an error only, a full one the whole chain.
-/

namespace SlashCommands

/-- An error and what lies behind it, outermost first. -/
structure ErrorChain where
  outermost : String
  causes : List String
deriving DecidableEq, Inhabited

namespace ErrorChain

/-- An error without causes. -/
def ofText (text : String) : ErrorChain :=
  ⟨text, []⟩

/-- The same error, seen from further outside. -/
def within (e : ErrorChain) (context : String) : ErrorChain :=
  ⟨context, e.outermost :: e.causes⟩

/-- The error and its causes on one line. -/
def text (e : ErrorChain) : String :=
  ": ".intercalate (e.outermost :: e.causes)

end ErrorChain

/-- A number of milliseconds in seconds, as a decimal fraction without zeros at its end. -/
def secondsText (ms : Nat) : String :=
  let thousandths := Nat.toDigits 10 (1000 + ms % 1000)
  let fraction := (thousandths.drop 1).reverse.dropWhile (· = '0')
  toString (ms / 1000) ++ (if fraction.isEmpty then "" else "." ++ String.ofList fraction.reverse)
    ++ "s"

/-- A duration in the largest unit it fills. -/
def durationText (ms : Nat) : String :=
  if ms = 0 then "0ns" else if ms < 1000 then toString ms ++ "ms" else secondsText ms

/-- Why a handler came to no result. -/
inductive Failure
  | error (chain : ErrorChain)
  /-- Without a text when something else than a text was thrown. -/
  | panic (text : Option String)
  | timeout (limit : Nat)
deriving DecidableEq, Inhabited

/-- The failure as outcomes and log lines give it. -/
def Failure.text : Failure → String
  | error chain => chain.text
  | panic (some text) => "panicked: " ++ text
  | panic none => "panicked: unknown panic"
  | timeout limit => "timed out after " ++ durationText limit

end SlashCommands
