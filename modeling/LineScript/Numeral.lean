import LineScript.Text.Basic

/-!
Numerals of unsigned numbers in a radix of at most sixteen, and the numbers below 2^64 that a
script's conversions work on.
-/

namespace LineScript.Numeral

/-- What a character is worth as a digit; letters count in either case. -/
def worth? (c : Char) : Option Nat :=
  if '0' ≤ c ∧ c ≤ '9' then some (c.toNat - '0'.toNat)
  else if 'A' ≤ c ∧ c ≤ 'F' then some (c.toNat - 'A'.toNat + 10)
  else if 'a' ≤ c ∧ c ≤ 'f' then some (c.toNat - 'a'.toNat + 10)
  else none

/-- What a character is worth as a digit of the radix. -/
def digit? (radix : Nat) (c : Char) : Option Nat := (worth? c).filter (· < radix)

def isDigit (radix : Nat) (c : Char) : Bool := (digit? radix c).isSome

/-- The number that a row of digits stands for, the first digit counting most. -/
def value (radix : Nat) (digits : Text) : Nat :=
  digits.foldl (fun n c => radix * n + (digit? radix c).getD 0) 0

/-- The numeral without leading zeros, its letters in upper case. -/
def write (radix n : Nat) : Text := (Nat.toDigits radix n).map Char.toUpper

def decimal (n : Nat) : Text := write 10 n

/-- The number of a nonempty row of digits. -/
def read? (radix : Nat) (s : Text) : Option Nat :=
  if s ≠ [] ∧ s.all (isDigit radix) then some (value radix s) else none

/-- The marks that may stand before a numeral of the radix. -/
def marks : Nat → List Text
  | 16 => ["0x".toList, "0X".toList]
  | 2 => ["0b".toList]
  | _ => []

/-- The text without the first mark of the radix that it begins with. -/
def unmark (radix : Nat) (s : Text) : Text := ((marks radix).findSome? (Text.after? · s)).getD s

/-- Numbers stay below this bound. -/
def bound : Nat := Nat.pow 2 64

/-- The number written in a value: blanks around it do not count and one mark is allowed. -/
def parse? (radix : Nat) (s : Text) : Option Nat :=
  (read? radix (unmark radix (Text.trim s))).filter (· < bound)

/-- The numeral of a value in another radix, empty if the value holds no number. -/
def convert (source target : Nat) (s : Text) : Text :=
  ((parse? source s).map (write target)).getD []

end LineScript.Numeral
