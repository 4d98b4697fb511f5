import LineScript.Number.Decimal
import LineScript.Text.Upper

/-!
The numbers that comparisons work on: binary floating point with 53 significant bits and a least
exponent of -1074, and what is not a number. A decimal is rounded to the nearest of these numbers,
a tie to the one whose last bit is even; a decimal too great for them is infinite.
-/

namespace LineScript.Number

/-- A number is kept as its multiple of `2 ^ (-1074)`, which every finite one is. Infinity is
kept as `2 ^ 1024`, which is greater than all of them. -/
inductive Binary64 where
  | nan
  | units (n : Int)
  deriving DecidableEq, Repr

namespace Binary64

/-- How many units make one. -/
def one : Nat := Nat.pow 2 1074

/-- Infinity in units. -/
def infinity : Nat := Nat.pow 2 1024 * one

/-- The quotient rounded to the nearest integer, a tie to the even one. -/
def divNearest (a b : Nat) : Nat :=
  let q := a / b
  let r := a % b
  if b < 2 * r ∨ (2 * r = b ∧ q % 2 = 1) then q + 1 else q

/-- Units of the quotient `a / b` of units, rounded to 53 significant bits. -/
def roundUnits (a b : Nat) : Nat :=
  let step := Nat.pow 2 ((a / b).log2 - 52)
  min (divNearest a (b * step) * step) infinity

/-- A decimal as a quotient of units. -/
def quotient (d : Decimal) : Nat × Nat :=
  (d.digits * Nat.pow 10 d.exponent.toNat * one, Nat.pow 10 (-d.exponent).toNat)

/-- Units of the number nearest to a decimal. Decimals from `10 ^ 309` on are infinite and those
below `10 ^ (-324)` are zero, which their size shows without the quotient. -/
def ofDecimal (d : Decimal) : Nat :=
  let size := (Nat.toDigits 10 d.digits).length
  if d.digits = 0 then 0
  else if 309 < size + d.exponent then infinity
  else if size + d.exponent ≤ -324 then 0
  else roundUnits (quotient d).1 (quotient d).2

/-- The words for infinity and for what is not a number, in any case. -/
def word? (s : Text) : Option (Option Nat) :=
  let word := Text.asciiUpper s
  if word = "INF".toList ∨ word = "INFINITY".toList then some (some infinity)
  else if word = "NAN".toList then some none
  else none

/-- The units of a number without a sign, or `none` inside for what is not a number. -/
def magnitude? (s : Text) : Option (Option Nat) :=
  (word? s).or ((Decimal.read? s).map fun d => some (ofDecimal d))

def ofMagnitude (negative : Bool) : Option Nat → Binary64
  | none => nan
  | some n => units (if negative then -n else n)

/-- The number that a text writes. -/
def read? : Text → Option Binary64
  | '+' :: s => (magnitude? s).map (ofMagnitude false)
  | '-' :: s => (magnitude? s).map (ofMagnitude true)
  | s => (magnitude? s).map (ofMagnitude false)

end Binary64

end LineScript.Number
