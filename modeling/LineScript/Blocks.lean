import LineScript.Script
import LineScript.Table

/-!
The blocks of a script. A block begins after the first line that bears its label; later labels of
the same name mean nothing.
-/

namespace LineScript

/-- A block and the number of its label's line, counted from zero. -/
structure Block where
  name : Text
  line : Nat
  deriving DecidableEq, Repr

/-- The blocks in the order of their labels, and where in that order each name is. -/
structure Blocks where
  entries : List Block := []
  index : Table Nat := []
  deriving DecidableEq, Repr

namespace Blocks

/-- The line of the label of a block. -/
def line? (b : Blocks) (name : Text) : Option Nat :=
  ((b.index.get? name).bind (b.entries[·]?)).map (·.line)

def isKnown (b : Blocks) (name : Text) : Bool := (b.index.get? name).isSome

/-- Adds a block; fails if there is one of that name. -/
def add? (b : Blocks) (name : Text) (line : Nat) : Option Blocks :=
  if b.isKnown name then none
  else some ⟨b.entries ++ [⟨name, line⟩], b.index.put name b.entries.length⟩

/-- Adds a block unless there is one of that name. -/
def register (b : Blocks) (name : Text) (line : Nat) : Blocks := (b.add? name line).getD b

/-- Adds the blocks of the labels on some lines, the first of which has the given number. -/
def registerLines (b : Blocks) : Nat → List Line → Blocks
  | _, [] => b
  | number, line :: rest =>
    match line.command with
    | some (.label name) => (b.register name number).registerLines (number + 1) rest
    | _ => b.registerLines (number + 1) rest

/-- The blocks of a script. -/
def ofScript (script : Script) : Blocks := ({} : Blocks).registerLines 0 script.lines

end Blocks

end LineScript
