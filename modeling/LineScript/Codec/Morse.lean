import LineScript.Text.Upper

/-!
International Morse code for letters and digits. A space parts the codes of a word and a slash parts
words; what has no code is left out.
-/

namespace LineScript.Codec.Morse

def table : List (Char × Text) :=
  [('A', ".-".toList), ('B', "-...".toList), ('C', "-.-.".toList), ('D', "-..".toList),
    ('E', ".".toList), ('F', "..-.".toList), ('G', "--.".toList), ('H', "....".toList),
    ('I', "..".toList), ('J', ".---".toList), ('K', "-.-".toList), ('L', ".-..".toList),
    ('M', "--".toList), ('N', "-.".toList), ('O', "---".toList), ('P', ".--.".toList),
    ('Q', "--.-".toList), ('R', ".-.".toList), ('S', "...".toList), ('T', "-".toList),
    ('U', "..-".toList), ('V', "...-".toList), ('W', ".--".toList), ('X', "-..-".toList),
    ('Y', "-.--".toList), ('Z', "--..".toList), ('1', ".----".toList), ('2', "..---".toList),
    ('3', "...--".toList), ('4', "....-".toList), ('5', ".....".toList), ('6', "-....".toList),
    ('7', "--...".toList), ('8', "---..".toList), ('9', "----.".toList), ('0', "-----".toList)]

/-- The code of an upper-case letter or digit. -/
def code? (c : Char) : Option Text := table.lookup c

/-- The letter or digit of a code. -/
def char? (code : Text) : Option Char := (table.find? fun (_, known) => known = code).map (·.1)

/-- The code of a text, where `upper` makes it upper case. -/
def encodeWith (upper : Text → Text) (s : Text) : Text :=
  let signals := ((upper s).splitOn ' ').map fun word => Text.join [' '] (word.filterMap code?)
  Text.join ['/'] (signals.filter (· ≠ []))

def encode (s : Text) : Text := encodeWith Text.upper s

/-- Upper-case text with one space between words. -/
def decode (s : Text) : Text :=
  let plain := (s.splitOn '/').map fun signal => (Text.words signal).filterMap char?
  Text.join [' '] (plain.filter (· ≠ []))

end LineScript.Codec.Morse
