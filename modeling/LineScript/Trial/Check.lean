import LineScript.Session
import LineScript.Trial.File

/-!
Running a test: the run must fail or succeed as expected, and in both cases its output must be the
expected one.
-/

namespace LineScript.Trial

/-- How a run differs from what is expected of it. -/
inductive Mismatch where
  | failed (message : Text)
  | succeeded (wanted : Text)
  | wrongMessage (wanted message : Text)
  | wrongOutput (expected actual : Text)
  deriving DecidableEq, Repr

/-- The lines of a text, each moved to the right. -/
def indented (s : Text) : Text :=
  Text.join ['\n'] ((Text.shownLines s).map ("    ".toList ++ ·))

def Mismatch.message : Mismatch → Text
  | failed message => "run failed: ".toList ++ message
  | succeeded wanted => "run succeeded, wanted error \"".toList ++ wanted ++ ['"']
  | wrongMessage wanted message =>
    "wrong error\n  wanted: ".toList ++ wanted ++ "\n  got:    ".toList ++ message
  | wrongOutput expected actual =>
    "output differs\n  expected:\n".toList ++ indented expected ++ "\n  actual:\n".toList ++
      indented actual

/-- The mismatch of an outcome, given the wanted part of a failure's message. -/
def outcomeMismatch? : Option Text → Outcome → Option Mismatch
  | none, .ok _ => none
  | none, .error failure => some (.failed failure.message)
  | some wanted, .ok _ => some (.succeeded wanted)
  | some wanted, .error failure =>
    if Text.mentions wanted failure.message then none
    else some (.wrongMessage wanted failure.message)

/-- The mismatch of an output; blanks around it do not count. -/
def outputMismatch? (expected : Option Text) (actual : Text) : Option Mismatch :=
  match expected with
  | none => none
  | some expected =>
    if Text.trim actual = Text.trim expected then none
    else some (.wrongOutput (Text.trim expected) (Text.trim actual))

/-- Runs the script; nothing is amiss if the test passes. -/
def check (t : Trial) : Option Mismatch :=
  let session : Session := {
    script := Script.ofSource t.source 0
    limit := t.expected.limit.getD defaultLimit }
  let (outcome, chunks, _) := session.run Sink.gather []
  (outcomeMismatch? t.expected.failure outcome).or
    (outputMismatch? t.expected.output (gathered chunks))

end LineScript.Trial
