import LineScript.Operand
import LineScript.Toml.Scalar

/-!
Documents that are lists of keys with a string or an integer each, the part of TOML that a header
can use. Anything else, and a key given twice, is refused.
-/

namespace LineScript.Toml

/-- A bare or quoted key. -/
def key? (s : Text) : Option (Text × Text) :=
  let (bare, rest) := s.span isNameChar
  if bare = [] then shortString? s else some (bare, rest)

/-- What follows the end of a line, before which blanks and a comment may stand. -/
def lineEnd? (s : Text) : Option Text :=
  let rest := s.dropWhile isSpace
  let rest := if rest.head? = some '#' then rest.dropWhile isPlain else rest
  if rest = [] then some [] else newline? rest

/-- A key with its value, up to the end of its line. -/
def pair? (s : Text) : Option ((Text × Value) × Text) := do
  let (key, rest) ← key? s
  let rest ← Text.after? ['='] (rest.dropWhile isSpace)
  let (value, rest) ← value? (rest.dropWhile isSpace)
  let rest ← lineEnd? rest
  some ((key, value), rest)

/-- The entry on a line, if it has one. -/
def line? (s : Text) : Option (Option (Text × Value) × Text) :=
  match lineEnd? s with
  | some rest => some (none, rest)
  | none => (pair? (s.dropWhile isSpace)).map fun (entry, rest) => (some entry, rest)

/-- The entries of all lines; every line takes at least its terminator. -/
def lines? (s : Text) : Option (List (Text × Value)) :=
  if s = [] then some []
  else
    match line? s with
    | none => none
    | some (entry, rest) =>
      if rest.length < s.length then (lines? rest).map (entry.toList ++ ·) else none
termination_by s.length

/-- The entries of a document in order. -/
def document? (s : Text) : Option (List (Text × Value)) :=
  (lines? ((Text.after? ['\uFEFF'] s).getD s)).filter fun entries => (entries.map (·.1)).Nodup

end LineScript.Toml
