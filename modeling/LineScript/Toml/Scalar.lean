import LineScript.Numeral

/-!
The values of a header: strings in the four spellings of TOML and integers in its four radices. Each
reader takes a value from the front of a text and gives it with the text that follows.
-/

namespace LineScript.Toml

inductive Value where
  | string (text : Text)
  | integer (n : Int)
  deriving DecidableEq, Repr

def isSpace (c : Char) : Bool := c = ' ' || c = '\t'

/-- Characters that may stand for themselves: no control character but the tab. -/
def isPlain (c : Char) : Bool := c = '\t' || (0x20 ≤ c.toNat && c.toNat ≠ 0x7F)

/-- What follows a line feed, with or without a carriage return before it. -/
def newline? : Text → Option Text
  | '\n' :: rest => some rest
  | '\r' :: '\n' :: rest => some rest
  | _ => none

/-- What one step of reading a string takes from the front of a text. -/
inductive Step where
  /-- More of the string's text. -/
  | more (text rest : Text)
  /-- The last of the string's text. -/
  | last (text rest : Text)

/-- Takes steps up to the last one and puts their texts together. A step that takes nothing would
never come to an end and is refused. -/
def steps (step? : Text → Option Step) (s : Text) : Option (Text × Text) :=
  match step? s with
  | none => none
  | some (.last text rest) => some (text, rest)
  | some (.more text rest) =>
    if rest.length < s.length then
      (steps step? rest).map fun (tail, rest) => (text ++ tail, rest)
    else none
termination_by s.length

/-- The character of a code in hexadecimal digits. -/
def scalar? (digits : Text) : Option Char :=
  match Numeral.read? 16 digits with
  | some n => if n.isValidChar then some (Char.ofNat n) else none
  | none => none

/-- The escapes of one character. -/
def escapes : List (Char × Char) :=
  [('b', '\x08'), ('t', '\t'), ('n', '\n'), ('f', '\x0C'), ('r', '\r'), ('"', '"'), ('\\', '\\')]

/-- The character of an escape whose backslash is already taken. -/
def escape? : Text → Option Step
  | [] => none
  | c :: rest =>
    let coded (size : Nat) :=
      if rest.length < size then none
      else (scalar? (rest.take size)).map fun code => Step.more [code] (rest.drop size)
    if c = 'u' then coded 4
    else if c = 'U' then coded 8
    else (escapes.lookup c).map fun plain => Step.more [plain] rest

/-- A step of a string between single double quotes. -/
def basicStep? : Text → Option Step
  | [] => none
  | '"' :: rest => some (.last [] rest)
  | '\\' :: rest => escape? rest
  | c :: rest => if isPlain c then some (.more [c] rest) else none

/-- A step of a string between single apostrophes, which has no escapes. -/
def literalStep? : Text → Option Step
  | [] => none
  | '\x27' :: rest => some (.last [] rest)
  | c :: rest => if isPlain c then some (.more [c] rest) else none

/-- A run of quotes in a string of many lines: three of them end it, and up to two more before them
belong to it. -/
def quotes (quote : Char) (s : Text) : Step :=
  let run := (s.takeWhile (· = quote)).length
  if run < 3 then .more [quote] (s.drop 1)
  else
    let own := min (run - 3) 2
    .last (List.replicate own quote) (s.drop (own + 3))

/-- The text without the spaces and line ends at its front. -/
def dropGap : Text → Text
  | '\r' :: '\n' :: rest => dropGap rest
  | c :: rest => if isSpace c || c = '\n' then dropGap rest else c :: rest
  | [] => []

/-- What follows the gap after a backslash that ends a line. -/
def joined? (s : Text) : Option Text := (newline? (s.dropWhile isSpace)).map dropGap

/-- A step inside a string of many lines that is neither a quote nor an escape. -/
def lineStep? (s : Text) : Option Step :=
  match newline? s, s with
  | some rest, _ => some (.more ['\n'] rest)
  | none, c :: rest => if isPlain c then some (.more [c] rest) else none
  | none, [] => none

/-- A step of a string of many lines between triple double quotes. -/
def multiBasicStep? : Text → Option Step
  | '"' :: rest => some (quotes '"' ('"' :: rest))
  | '\\' :: rest =>
    match joined? rest with
    | some rest => some (.more [] rest)
    | none => escape? rest
  | s => lineStep? s

/-- A step of a string of many lines between triple apostrophes. -/
def multiLiteralStep? : Text → Option Step
  | '\x27' :: rest => some (quotes '\x27' ('\x27' :: rest))
  | s => lineStep? s

/-- A line end right after the opening quotes does not count. -/
def afterOpening (s : Text) : Text := (newline? s).getD s

/-- A string on one line. -/
def shortString? : Text → Option (Text × Text)
  | '"' :: rest => steps basicStep? rest
  | '\x27' :: rest => steps literalStep? rest
  | _ => none

/-- A string in any spelling. -/
def string? : Text → Option (Text × Text)
  | '"' :: '"' :: '"' :: rest => steps multiBasicStep? (afterOpening rest)
  | '\x27' :: '\x27' :: '\x27' :: rest => steps multiLiteralStep? (afterOpening rest)
  | s => shortString? s

/-- A row of digits without the underscores that part it. -/
def ungrouped? (s : Text) : Option Text :=
  if (s.splitOn '_').contains [] then none else some (s.splitOn '_').flatten

/-- A decimal number without a sign, which may not begin with a needless zero. -/
def decimal? (s : Text) : Option Nat :=
  (ungrouped? s).bind fun digits =>
    if digits.head? = some '0' ∧ digits ≠ ['0'] then none else Numeral.read? 10 digits

/-- An integer that fills the whole text. -/
def integer? : Text → Option Int
  | '0' :: 'x' :: s => ((ungrouped? s).bind (Numeral.read? 16)).map (↑·)
  | '0' :: 'o' :: s => ((ungrouped? s).bind (Numeral.read? 8)).map (↑·)
  | '0' :: 'b' :: s => ((ungrouped? s).bind (Numeral.read? 2)).map (↑·)
  | '+' :: s => (decimal? s).map (↑·)
  | '-' :: s => (decimal? s).map (-↑·)
  | s => (decimal? s).map (↑·)

/-- Integers are those of 64 bits with a sign. -/
def inRange (n : Int) : Bool := -Int.pow 2 63 ≤ n && n < Int.pow 2 63

def isNumberChar (c : Char) : Bool := c.isAlphanum || c = '_' || c = '+' || c = '-'

/-- A string or an integer. -/
def value? (s : Text) : Option (Value × Text) :=
  match s.head? with
  | none => none
  | some c =>
    if c = '"' ∨ c = '\x27' then (string? s).map fun (text, rest) => (.string text, rest)
    else
      let (number, rest) := s.span isNumberChar
      ((integer? number).filter inRange).map fun n => (.integer n, rest)

end LineScript.Toml
