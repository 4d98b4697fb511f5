import LineScript.Toml.Document

/-!
What the header of a test file expects of a run.
-/

namespace LineScript.Trial

structure Expectation where
  description : Option Text := none
  /-- All output, up to blanks around it. -/
  output : Option Text := none
  /-- A part of the message with which the run must fail. -/
  failure : Option Text := none
  /-- How many calls may be inside one another. -/
  limit : Option Nat := none
  deriving DecidableEq, Repr

/-- A way to read headers; it says why it refuses one. -/
abbrev Decoder := Text → Except Text Expectation

namespace Expectation

/-- Fills the field of a key; an unknown key or a value of the wrong kind is refused. -/
def set (e : Expectation) : Text × Toml.Value → Except Text Expectation
  | (key, .string text) =>
    if key = "description".toList then .ok { e with description := some text }
    else if key = "expect_output".toList then .ok { e with output := some text }
    else if key = "expect_error".toList then .ok { e with failure := some text }
    else .error ("unexpected string for key ".toList ++ key)
  | (key, .integer n) =>
    if key = "max_depth".toList ∧ 0 ≤ n then .ok { e with limit := some n.toNat }
    else .error ("unexpected integer for key ".toList ++ key)

def ofHeader : Decoder := fun header =>
  match Toml.document? header with
  | some entries => entries.foldlM set {}
  | none => .error "not a list of different keys with strings and integers".toList

end Expectation

end LineScript.Trial
