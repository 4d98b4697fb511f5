import LineScript.Operand
import LineScript.Table

/-!
The variables of a run. A variable comes into being by its first assignment, and one that has none
reads as the empty text.
-/

namespace LineScript

structure Store where
  values : Table Text := []
  deriving DecidableEq, Repr

namespace Store

def lookup (s : Store) (name : Text) : Option Text := s.values.get? name

def assign (s : Store) (name value : Text) : Store := ⟨s.values.put name value⟩

/-- Gives `target` the value of `source`; fails unless both variables have a value. -/
def copy? (s : Store) (source target : Text) : Option Store :=
  match s.lookup source, s.lookup target with
  | some value, some _ => some (s.assign target value)
  | _, _ => none

/-- The value of a variable, empty if it has none. -/
def valueOf (s : Store) (name : Text) : Text := (s.lookup name).getD []

def resolve (s : Store) : Operand → Text
  | .literal text => text
  | .ref name => s.valueOf name

end Store

end LineScript
