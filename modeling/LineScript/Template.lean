import LineScript.Template.Token

/-!
A line of output as a list of parts. One pass from left to right takes a token wherever one stands,
and gathers the characters between tokens into literals.
-/

namespace LineScript

abbrev Template := List Part

namespace Template

/-- Puts a character in front, into the first part if that is a literal. -/
def push (c : Char) : Template → Template
  | .literal text :: parts => .literal (c :: text) :: parts
  | parts => .literal [c] :: parts

/-- The parts of a text, whose tokens are those of the mode. -/
def scan (mode : Token.Mode) (s : Text) : Template :=
  match s with
  | [] => []
  | c :: rest =>
    match _h : Token.any? mode (c :: rest) with
    | some (part, follows) => part :: scan mode follows
    | none => push c (scan mode rest)
termination_by s.length
decreasing_by
  · exact Token.length_lt_of_any? (by assumption)
  · simp

@[simp] theorem scan_nil (mode : Token.Mode) : scan mode [] = [] := by rw [scan]

theorem scan_of_token {mode : Token.Mode} {c : Char} {rest follows : Text} {part : Part}
    (h : Token.any? mode (c :: rest) = some (part, follows)) :
    scan mode (c :: rest) = part :: scan mode follows := by
  rw [scan]
  split <;> simp_all

theorem scan_of_no_token {mode : Token.Mode} {c : Char} {rest : Text}
    (h : Token.any? mode (c :: rest) = none) :
    scan mode (c :: rest) = push c (scan mode rest) := by
  rw [scan]
  split <;> simp_all

/-- Reads references and conversions. -/
def read (s : Text) : Template := scan .full s

/-- Reads references only: a conversion stays literal, up to the references inside it. -/
def readPlain (s : Text) : Template := scan .plain s

def hasConversions (t : Template) : Bool := t.any Part.isConversion

/-- The text that the parts were written as. -/
def source (t : Template) : Text := t.flatMap Part.source

end Template

end LineScript
