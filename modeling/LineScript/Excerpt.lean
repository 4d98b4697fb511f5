import LineScript.Failure
import LineScript.Text.Columns

/-!
Failures as they are shown to a user, with the line to blame where there is one.
-/

namespace LineScript

/-- A line without the line ends and NUL characters at its end. -/
def Line.visible (line : Line) : Text :=
  (line.text.reverse.dropWhile fun c => c = '\n' || c = '\r' || c = '\x00').reverse

/-- The line of a file, its number and a mark under each of its columns. One more mark stands for
characters at its end that are not shown. -/
def Line.excerpt (line : Line) (file : Text) (number : Nat) : List Text :=
  let label := Numeral.decimal number
  let gutter := List.replicate label.length ' '
  let (shown, width) := Text.laidOut 0 line.visible
  let marks := if line.visible.length < line.text.length then width + 1 else width
  [gutter ++ " ┌─ ".toList ++ file ++ [':'] ++ label ++ ":1".toList,
    gutter ++ " │".toList,
    label ++ " │ ".toList ++ shown,
    gutter ++ " │ ".toList ++ List.replicate marks '^',
    []]

/-- The lines that show a failure of a script from a file. -/
def Failure.report (failure : Failure) (script : Script) (file : Text) : List Text :=
  ("error: ".toList ++ failure.message) ::
    match script.lines.findIdx? fun line => failure.span = some line.span with
    | none => []
    | some index =>
      match script.lines[index]? with
      | none => []
      | some line => line.excerpt file (index + 1)

end LineScript
