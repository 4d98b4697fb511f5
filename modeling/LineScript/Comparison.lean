import LineScript.Number.Binary64

/-!
The comparisons of a conditional line. Two texts that both write numbers are compared as numbers;
any others are compared as texts, which are equal or different and in no order.
-/

namespace LineScript

inductive Comparison where
  | equal
  | notEqual
  | atMost
  | atLeast
  | less
  | greater
  deriving DecidableEq, Repr

namespace Comparison

def all : List Comparison := [equal, notEqual, atMost, atLeast, less, greater]

def symbol : Comparison → Text
  | equal => "==".toList
  | notEqual => "!=".toList
  | atMost => "<=".toList
  | atLeast => ">=".toList
  | less => "<".toList
  | greater => ">".toList

def holdsInt (left right : Int) : Comparison → Bool
  | equal => left = right
  | notEqual => left ≠ right
  | atMost => left ≤ right
  | atLeast => right ≤ left
  | less => left < right
  | greater => right < left

/-- What is not a number differs from everything and is in no order. -/
def holdsNumber : Number.Binary64 → Number.Binary64 → Comparison → Bool
  | .units left, .units right, c => c.holdsInt left right
  | _, _, c => c = notEqual

def holdsText (left right : Text) : Comparison → Bool
  | equal => left = right
  | notEqual => left ≠ right
  | _ => false

def holds (left right : Text) (c : Comparison) : Bool :=
  match Number.Binary64.read? left, Number.Binary64.read? right with
  | some a, some b => c.holdsNumber a b
  | _, _ => c.holdsText left right

/-- The symbol as it stands between operands. -/
def spaced (c : Comparison) : Text := [' '] ++ c.symbol ++ [' ']

/-- Of several cuts of one text, the one that stands furthest left. -/
def leftmost? : List (Text × Comparison × Text) → Option (Text × Comparison × Text)
  | [] => none
  | cut :: rest =>
    match leftmost? rest with
    | some other => if other.1.length < cut.1.length then some other else some cut
    | none => some cut

/-- The cut of a text at the first place where the symbol stands between spaces. -/
def cut? (s : Text) (c : Comparison) : Option (Text × Comparison × Text) :=
  (Text.cut? c.spaced s).map fun (left, right) => (left, c, right)

/-- The trimmed sides of the leftmost symbol that stands between spaces; neither may be empty. -/
def split? (s : Text) : Option (Text × Comparison × Text) :=
  match leftmost? (all.filterMap (cut? s)) with
  | none => none
  | some (left, c, right) =>
    if Text.trim left = [] ∨ Text.trim right = [] then none
    else some (Text.trim left, c, Text.trim right)

end Comparison

end LineScript
