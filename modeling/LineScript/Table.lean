import LineScript.Text.Basic

/-!
Tables from names to values, in the order in which the names were first written.
-/

namespace LineScript

abbrev Table (α : Type) := List (Text × α)

namespace Table

variable {α : Type}

def get? (t : Table α) (name : Text) : Option α := t.lookup name

/-- Gives a name a value; a name that has one keeps its place. -/
def put (name : Text) (value : α) : Table α → Table α
  | [] => [(name, value)]
  | (key, old) :: rest =>
    if key = name then (key, value) :: rest else (key, old) :: put name value rest

theorem get?_put (t : Table α) (name key : Text) (value : α) :
    (t.put name value).get? key = if key = name then some value else t.get? key := by
  induction t with
  | nil =>
    by_cases h : key = name
    · simp [put, get?, h]
    · have : (key == name) = false := by simpa using h
      simp [put, get?, List.lookup_cons, h, this]
  | cons row rest ih =>
    obtain ⟨k, old⟩ := row
    simp only [get?] at ih
    by_cases hk : k = name
    · subst hk
      by_cases h : key = k
      · simp [put, get?, h]
      · have : (key == k) = false := by simpa using h
        simp [put, get?, List.lookup_cons, h, this]
    · by_cases h : key = k
      · subst h
        simp [put, get?, hk]
      · have : (key == k) = false := by simpa using h
        simp [put, get?, List.lookup_cons, hk, this, ih]

end Table

end LineScript
