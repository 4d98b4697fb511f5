import LineScript.Comparison
import LineScript.Template

/-!
What a line of a script asks for.
-/

namespace LineScript

/-- A conditional call: of one block if the comparison holds, of another, if any, if it does not. -/
structure Branch where
  left : Operand
  comparison : Comparison
  right : Operand
  whenTrue : Text
  whenFalse : Option Text
  deriving DecidableEq, Repr

inductive Command where
  /-- Ends the whole run. -/
  | halt
  /-- Marks where a block begins. -/
  | label (block : Text)
  /-- Returns from the block that is running. -/
  | leave
  | call (block : Text)
  | assign (target value : Text)
  /-- Gives one variable the value of another. -/
  | copy (target source : Text)
  | branch (branch : Branch)
  /-- Prints a report on what a value may be. -/
  | identify (value : Operand)
  /-- Prints a line with at least one conversion. -/
  | convert (line : Template)
  /-- Prints a line without conversions. -/
  | say (line : Template)
  deriving DecidableEq, Repr

namespace Command

/-- All but the commands that print a line of the script. -/
def isStructural : Command → Bool
  | convert _ | say _ => false
  | _ => true

end Command

end LineScript
