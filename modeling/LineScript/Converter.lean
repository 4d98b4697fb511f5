import LineScript.Operator

/-!
What a script asks for conversions. A converter applies operators by name and reports what an
unknown value may be; the standard one knows the operators of the library.
-/

namespace LineScript

structure Converter where
  /-- Applies the operator of a name; `none` if there is no such operator. -/
  convert : Text → Text → Option Text
  /-- The lines of a report on what a value may be. -/
  identify : Text → List Text

/-- The operators that read a value in binary, under the names that the report gives them. -/
def binaryReadings : List (Text × Operator) :=
  [("bin->dec".toList, .binaryToDecimal), ("bin->hex".toList, .binaryToHex),
    ("bin->ascii".toList, .binaryToAscii)]

/-- The operators that read a value in hexadecimal, under the names that the report gives them. -/
def hexReadings : List (Text × Operator) :=
  [("hex->dec".toList, .hexToDecimal), ("hex->ascii".toList, .hexToAscii)]

/-- The line for one reading of a value, left out if the reading is empty. -/
def readingLine? (value : Text) : Text × Operator → Option Text
  | (name, operator) =>
    let result := operator.apply value
    if result = [] then none
    else some ("::".toList ++ name ++ ['['] ++ value ++ "] = ".toList ++ result)

/-- The verdict on a value, and the readings that it admits. -/
def verdict (value : Text) : Text × List (Text × Operator) :=
  if value.all fun c => c = '0' || c = '1' then
    ("It might be binary.".toList, binaryReadings)
  else if value.all (Numeral.isDigit 16) then
    ("It might be hexadecimal.".toList, hexReadings)
  else ("No interpretation found.".toList, [])

/-- A headline, the verdict and the readings of a value; a blank value gives no report. -/
def identificationReport (input : Text) : List Text :=
  let value := Text.trim input
  if value = [] then []
  else
    let (line, readings) := verdict value
    ("Trying to figure out what ".toList ++ value ++ " is ...".toList) :: line ::
      readings.filterMap (readingLine? value)

/-- Knows the operators of the library. -/
def Converter.standard : Converter where
  convert name input := (Operator.ofName? name).map (·.apply input)
  identify := identificationReport

end LineScript
