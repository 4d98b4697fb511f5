import LineScript.Numeral

/-!
Decimal numbers as they are written: digits with an optional point and an optional exponent.
-/

namespace LineScript.Number

/-- The number `digits * 10 ^ exponent`. -/
structure Decimal where
  digits : Nat
  exponent : Int
  deriving DecidableEq, Repr

namespace Decimal

def isDigit (c : Char) : Bool := Numeral.isDigit 10 c

/-- An integer with an optional sign. -/
def integer? : Text → Option Int
  | '+' :: s => (Numeral.read? 10 s).map (↑·)
  | '-' :: s => (Numeral.read? 10 s).map (-↑·)
  | s => (Numeral.read? 10 s).map (↑·)

/-- The exponent that ends a number; nothing counts as zero. -/
def exponent? : Text → Option Int
  | [] => some 0
  | c :: s => if c = 'e' ∨ c = 'E' then integer? s else none

/-- The digits after a point, and what follows them. -/
def fraction : Text → Text × Text
  | '.' :: s => s.span isDigit
  | s => ([], s)

/-- A number without a sign: at least one digit before or after the point. -/
def read? (s : Text) : Option Decimal :=
  let (whole, rest) := s.span isDigit
  let (part, rest) := fraction rest
  if whole ++ part = [] then none
  else (exponent? rest).map fun e => ⟨Numeral.value 10 (whole ++ part), e - part.length⟩

end Decimal

end LineScript.Number
