import LineScript.Text.Basic

/-!
Upper case, as far as it reaches the letters A to Z. A character whose upper case holds none of
them stays as it is.
-/

namespace LineScript

/-- The characters outside ASCII whose upper case holds a letter from A to Z, each with its upper
case. -/
def upperExpansions : List (Char × Text) :=
  [('ß', ['S', 'S']), ('ı', ['I']), ('ŉ', ['\u02BC', 'N']), ('ſ', ['S']), ('ǰ', ['J', '\u030C']),
    ('\u1E96', ['H', '\u0331']), ('\u1E97', ['T', '\u0308']), ('\u1E98', ['W', '\u030A']),
    ('\u1E99', ['Y', '\u030A']), ('\u1E9A', ['A', '\u02BE']),
    ('\uFB00', ['F', 'F']), ('\uFB01', ['F', 'I']), ('\uFB02', ['F', 'L']),
    ('\uFB03', ['F', 'F', 'I']), ('\uFB04', ['F', 'F', 'L']),
    ('\uFB05', ['S', 'T']), ('\uFB06', ['S', 'T'])]

/-- Upper case of one character, which may take several. -/
def upperChar (c : Char) : Text :=
  (upperExpansions.lookup c).getD [c.toUpper]

namespace Text

def upper (s : Text) : Text := s.flatMap upperChar

/-- Upper case of the letters a to z alone. -/
def asciiUpper (s : Text) : Text := s.map Char.toUpper

end Text

end LineScript
