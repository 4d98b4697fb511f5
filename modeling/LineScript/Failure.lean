import LineScript.Numeral
import LineScript.Script

/-!
How a run ends: it finishes, it is halted by a command, or it fails.
-/

namespace LineScript

/-- The block in which a run begins. -/
def entryBlock : Text := "main".toList

inductive Cause where
  /-- The script has no entry block. -/
  | noEntry
  /-- More calls inside one another than the limit allows. -/
  | overflow (limit : Nat)
  /-- The output could not be written. -/
  | output (reason : Text)
  deriving DecidableEq, Repr

def Cause.message : Cause → Text
  | noEntry => "no entry point: block '".toList ++ entryBlock ++ "' not found".toList
  | overflow limit =>
    "stack overflow: block calls nested deeper than ".toList ++ Numeral.decimal limit
  | output reason => "I/O error: ".toList ++ reason

/-- A cause, and the place in the source if a line is to blame. -/
structure Failure where
  cause : Cause
  span : Option Span := none
  sourceId : Nat := 0
  deriving DecidableEq, Repr

def Failure.message (f : Failure) : Text := f.cause.message

inductive Completion where
  /-- The entry block returned or the script came to its end. -/
  | finished
  /-- A command stopped the run. -/
  | halted
  deriving DecidableEq, Repr

abbrev Outcome := Except Failure Completion

end LineScript
