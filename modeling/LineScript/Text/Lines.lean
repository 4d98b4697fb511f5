import LineScript.Text.Basic

/-!
Cutting text into lines. A line feed ends a line, and a carriage return before it belongs to the
terminator; text after the last line feed is a line of its own.
-/

namespace LineScript.Text

/-- Cuts after every line feed, so that the pieces put together are the text. -/
def pieces : Text → List Text
  | [] => []
  | c :: rest =>
    if c = '\n' then [c] :: pieces rest
    else match pieces rest with
      | [] => [[c]]
      | piece :: more => (c :: piece) :: more

/-- A piece without a line feed at its end and then without a carriage return there. -/
def chomp (piece : Text) : Text :=
  let body := (before? ['\n'] piece).getD piece
  (before? ['\r'] body).getD body

/-- A piece without its terminator; a carriage return that no line feed follows is kept. -/
def unterminated (piece : Text) : Text :=
  match before? ['\n'] piece with
  | some body => (before? ['\r'] body).getD body
  | none => piece

/-- The lines of a text to be shown, without their terminators. -/
def shownLines (s : Text) : List Text := (pieces s).map unterminated

/-- The text of some lines, with a line feed after each. -/
def unlines (lines : List Text) : Text := lines.flatMap (· ++ ['\n'])

end LineScript.Text
