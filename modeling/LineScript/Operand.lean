import LineScript.Text.Basic

/-!
Names of variables and blocks, and operands: literal text or the value of a variable.
-/

namespace LineScript

def isNameChar (c : Char) : Bool := c.isAlphanum || c = '_' || c = '-'

/-- One or more ASCII letters, digits, underscores and hyphens. -/
def isName (s : Text) : Bool := s ≠ [] && s.all isNameChar

/-- The name in a text that is a name between brackets and nothing else. -/
def bracketedName? (s : Text) : Option Text := (Text.between? ['['] [']'] s).filter isName

theorem bracketedName?_eq_some {s name : Text} :
    bracketedName? s = some name ↔ s = ['['] ++ (name ++ [']']) ∧ isName name = true := by
  rw [bracketedName?, Option.filter_eq_some_iff, Text.between?_eq_some]

inductive Operand where
  | literal (text : Text)
  /-- The value of the named variable. -/
  | ref (name : Text)
  deriving DecidableEq, Repr

namespace Operand

/-- A bracketed name refers to a variable, and any other text stands for itself. -/
def read (s : Text) : Operand :=
  match bracketedName? s with
  | some name => ref name
  | none => literal s

def print : Operand → Text
  | literal text => text
  | ref name => ['['] ++ name ++ [']']

end Operand

end LineScript
