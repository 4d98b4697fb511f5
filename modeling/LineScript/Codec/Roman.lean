import LineScript.Numeral
import LineScript.Text.Upper

/-!
Roman numerals from 1 to 3999. Reading accepts the one numeral that writing gives, in either case.
-/

namespace LineScript.Codec.Roman

/-- The symbols and what they are worth, the greatest first. -/
def symbols : List (Nat × Text) :=
  [(1000, ['M']), (900, ['C', 'M']), (500, ['D']), (400, ['C', 'D']), (100, ['C']),
    (90, ['X', 'C']), (50, ['L']), (40, ['X', 'L']), (10, ['X']), (9, ['I', 'X']), (5, ['V']),
    (4, ['I', 'V']), (1, ['I'])]

def greatest : Nat := 3999

/-- As many of each symbol as fit, taken in the order of the table. -/
def spell : List (Nat × Text) → Nat → Text
  | [], _ => []
  | (worth, symbol) :: rest, n =>
    (List.replicate (n / worth) symbol).flatten ++ spell rest (n % worth)

def numeral? (n : Nat) : Option Text :=
  if 1 ≤ n ∧ n ≤ greatest then some (spell symbols n) else none

/-- How often the text begins with the symbol, and what follows all of them. -/
def peel (symbol s : Text) : Nat × Text :=
  match Text.after? symbol s with
  | some rest =>
    if rest.length < s.length then
      let (count, left) := peel symbol rest
      (count + 1, left)
    else (0, s)
  | none => (0, s)
termination_by s.length

/-- What the symbols at the front are worth together when they are peeled off in the order of the
table, and what is left. -/
def tally : List (Nat × Text) → Text → Nat × Text
  | [], s => (0, s)
  | (worth, symbol) :: rest, s =>
    let (count, left) := peel symbol s
    let (total, left) := tally rest left
    (count * worth + total, left)

/-- The number of a numeral; any spelling but the written one is refused. -/
def number? (s : Text) : Option Nat :=
  let (total, left) := tally symbols s
  if left = [] ∧ numeral? total = some s then some total else none

/-- The numeral of a decimal value, empty if there is none. -/
def encode (s : Text) : Text := ((Numeral.parse? 10 s).bind numeral?).getD []

/-- The decimal value of a numeral, empty if it is none. -/
def decode (s : Text) : Text :=
  ((number? (Text.asciiUpper (Text.trim s))).map Numeral.decimal).getD []

end LineScript.Codec.Roman
