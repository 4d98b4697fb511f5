import LineScript.Command.Form
import LineScript.Text.Lines

/-!
A script: its lines in order, each with its place in the source and the command on it.
-/

namespace LineScript

/-- A range of bytes of the source; `stop` is the first byte after it. -/
structure Span where
  start : Nat
  stop : Nat
  deriving DecidableEq, Repr

structure Line where
  /-- The line without its terminator. -/
  text : Text
  span : Span
  /-- What the line asks for; a comment asks for nothing. -/
  command : Option Command
  deriving DecidableEq, Repr

structure Script where
  lines : List Line
  /-- Which source the spans are ranges of. -/
  sourceId : Nat
  deriving DecidableEq, Repr

/-- The line of a text that begins at a byte of the source. -/
def Line.at (offset : Nat) (text : Text) : Line :=
  ⟨text, ⟨offset, offset + Text.byteSize text⟩, Command.read? text⟩

namespace Script

/-- The lines of the pieces of a source, the first of which begins at `offset`. -/
def linesOfPieces : Nat → List Text → List Line
  | _, [] => []
  | offset, piece :: rest =>
    Line.at offset (Text.chomp piece) :: linesOfPieces (offset + Text.byteSize piece) rest

/-- Lines with one byte between neighbours, the first of which begins at `offset`. -/
def linesOfTexts : Nat → List Text → List Line
  | _, [] => []
  | offset, text :: rest =>
    Line.at offset text :: linesOfTexts (offset + Text.byteSize text + 1) rest

/-- The script of a source text. -/
def ofSource (source : Text) (sourceId : Nat) : Script :=
  ⟨linesOfPieces 0 (Text.pieces source), sourceId⟩

/-- The script of lines that are already apart; the spans are those of the lines joined by line
feeds. -/
def ofLines (texts : List Text) : Script := ⟨linesOfTexts 0 texts, 0⟩

end Script

end LineScript
