import LineScript.Numeral

/-!
ASCII text as character codes: one code by itself, a list of decimal codes, or groups of digits of
fixed width, two hexadecimal digits or eight bits to a character. What cannot be converted gives
the empty text.
-/

namespace LineScript.Codec.Ascii

def isAscii (c : Char) : Bool := c.toNat < 128

/-- The character of a code below 128. -/
def char? (code : Nat) : Option Char := if code < 128 then some (Char.ofNat code) else none

/-- The character whose decimal code is the value. -/
def ofDecimal (s : Text) : Text :=
  (((Numeral.parse? 10 s).bind char?).map ([·])).getD []

/-- The decimal codes of the characters, with a space between neighbours. -/
def codes (s : Text) : Text :=
  if s.all isAscii then Text.join [' '] (s.map fun c => Numeral.decimal c.toNat) else []

/-- Digits per character: as many as the largest byte takes. -/
def width : Nat → Nat
  | 16 => 2
  | _ => 8

/-- The complete groups of `n` items from the front; a shorter rest is left out. -/
def groups (n : Nat) (s : Text) : List Text :=
  if 0 < n ∧ n ≤ s.length then s.take n :: groups n (s.drop n) else []
termination_by s.length

/-- The numeral of `n`, filled up with leading zeros to a length of `size`. -/
def padded (radix size n : Nat) : Text :=
  let digits := Numeral.write radix n
  List.replicate (size - digits.length) '0' ++ digits

/-- Every character as a group of digits of the radix. -/
def encode (radix : Nat) (s : Text) : Text :=
  if s.all isAscii then s.flatMap fun c => padded radix (width radix) c.toNat else []

/-- The character that each complete group of digits stands for. -/
def decode (radix : Nat) (s : Text) : Text :=
  let digits := Text.trim s
  if digits.all (Numeral.isDigit radix) then
    ((groups (width radix) digits).mapM fun group => char? (Numeral.value radix group)).getD []
  else []

end LineScript.Codec.Ascii
