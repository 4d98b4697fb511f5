import LineScript.Codec.Ascii
import LineScript.Codec.Roman
import LineScript.Codec.Morse

/-!
The conversion operators, their names in a script, and what each makes of its input. Input that an
operator cannot convert gives the empty text.
-/

namespace LineScript

inductive Operator where
  | decimalToBinary
  | decimalToHex
  | decimalToAscii
  | decimalToRoman
  | hexToDecimal
  | hexToBinary
  | hexToAscii
  | binaryToDecimal
  | binaryToHex
  | binaryToAscii
  | asciiToDecimal
  | asciiToHex
  | asciiToBinary
  | textToMorse
  | morseToText
  | romanToDecimal
  deriving DecidableEq, Repr

namespace Operator

/-- Every operator under each of its names. -/
def names : List (Text × Operator) :=
  [("dec->bin".toList, decimalToBinary), ("dec->hex".toList, decimalToHex),
    ("dec->ascii".toList, decimalToAscii), ("dec->roman".toList, decimalToRoman),
    ("hex->dec".toList, hexToDecimal), ("hex->bin".toList, hexToBinary),
    ("hex->ascii".toList, hexToAscii), ("bin->dec".toList, binaryToDecimal),
    ("bin->hex".toList, binaryToHex), ("bin->ascii".toList, binaryToAscii),
    ("ascii->dec".toList, asciiToDecimal), ("ascii->hex".toList, asciiToHex),
    ("ascii->bin".toList, asciiToBinary), ("text->morse".toList, textToMorse),
    ("morse".toList, textToMorse), ("morse->text".toList, morseToText),
    ("roman->dec".toList, romanToDecimal)]

def ofName? (name : Text) : Option Operator := names.lookup name

def apply : Operator → Text → Text
  | decimalToBinary => Numeral.convert 10 2
  | decimalToHex => Numeral.convert 10 16
  | decimalToAscii => Codec.Ascii.ofDecimal
  | decimalToRoman => Codec.Roman.encode
  | hexToDecimal => Numeral.convert 16 10
  | hexToBinary => Numeral.convert 16 2
  | hexToAscii => Codec.Ascii.decode 16
  | binaryToDecimal => Numeral.convert 2 10
  | binaryToHex => Numeral.convert 2 16
  | binaryToAscii => Codec.Ascii.decode 2
  | asciiToDecimal => Codec.Ascii.codes
  | asciiToHex => Codec.Ascii.encode 16
  | asciiToBinary => Codec.Ascii.encode 2
  | textToMorse => Codec.Morse.encode
  | morseToText => Codec.Morse.decode
  | romanToDecimal => Codec.Roman.decode

end Operator

end LineScript
