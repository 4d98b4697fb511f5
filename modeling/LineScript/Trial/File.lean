import LineScript.Text.Lines
import LineScript.Trial.Expectation

/-!
Test files. A fence opens the file and a second one closes its header; all that follows is the script
under test.
-/

namespace LineScript

/-- A script with what is expected of its run. -/
structure Trial where
  expected : Trial.Expectation
  source : Text
  deriving DecidableEq, Repr

namespace Trial

/-- Why a text is no test file. -/
inductive Defect where
  | unopened
  | unclosed
  | badHeader (reason : Text)
  deriving DecidableEq, Repr

def fence : Text := "---".toList

def Defect.message : Defect → Text
  | unopened => "file must start with a '".toList ++ fence ++ "' line".toList
  | unclosed => "header is not closed by a '".toList ++ fence ++ "' line".toList
  | badHeader reason => "invalid TOML header: ".toList ++ reason

/-- A line with its terminator that is a fence up to blanks at its end. -/
def isFence (piece : Text) : Bool := Text.trimEnd piece = fence

/-- The text without the byte order mark that it may begin with. -/
def unmarked (content : Text) : Text := (Text.after? ['\uFEFF'] content).getD content

/-- The header between the first two fences and the script after them, cut at whole lines. -/
def sections (content : Text) : Except Defect (Text × Text) :=
  match Text.pieces (unmarked content) with
  | [] => .error .unopened
  | first :: rest =>
    if isFence first then
      match rest.span (! isFence ·) with
      | (_, []) => .error .unclosed
      | (header, _ :: source) => .ok (header.flatten, source.flatten)
    else .error .unopened

/-- Reads a test file, where `decode` reads the header. -/
def readWith (decode : Decoder) (content : Text) : Except Defect Trial := do
  let (header, source) ← sections content
  match decode header with
  | .ok expected => .ok ⟨expected, source⟩
  | .error reason => .error (.badHeader reason)

def read (content : Text) : Except Defect Trial := readWith Expectation.ofHeader content

end Trial

end LineScript
