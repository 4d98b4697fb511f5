import LineScript.Text.Blank

/-!
Text as a list of characters, with the few cuts that reading a script needs.
-/

namespace LineScript

abbrev Text := List Char

namespace Text

/-- Without the blank characters it begins with. -/
def trimStart (s : Text) : Text := s.dropWhile isBlank

/-- Without the blank characters it ends with. -/
def trimEnd (s : Text) : Text := (s.reverse.dropWhile isBlank).reverse

def trim (s : Text) : Text := trimEnd (trimStart s)

/-- Holds nothing but blank characters. -/
def isAllBlank (s : Text) : Bool := s.all isBlank

/-- What follows `lead`, if the text begins with it. -/
def after? (lead s : Text) : Option Text :=
  if lead.isPrefixOf s then some (s.drop lead.length) else none

@[simp] theorem after?_nil (s : Text) : after? [] s = some s := by
  cases s <;> rfl

@[simp] theorem after?_cons_nil (c : Char) (lead : Text) : after? (c :: lead) [] = none := rfl

@[simp] theorem after?_cons_cons (c d : Char) (lead s : Text) :
    after? (c :: lead) (d :: s) = if c == d then after? lead s else none := by
  by_cases h : c = d <;> simp [after?, h]

theorem after?_eq_some {lead s rest : Text} : after? lead s = some rest ↔ s = lead ++ rest := by
  rw [after?, Option.ite_none_right_eq_some, List.isPrefixOf_iff_prefix]
  constructor
  · rintro ⟨hlead, ⟨rfl⟩⟩
    exact (List.prefix_iff_eq_append.1 hlead).symm
  · rintro rfl
    exact ⟨List.prefix_append lead rest, by rw [List.drop_left]⟩

/-- What precedes `tail`, if the text ends with it. -/
def before? (tail s : Text) : Option Text :=
  if tail.isSuffixOf s then some (s.take (s.length - tail.length)) else none

theorem before?_eq_some {tail s rest : Text} : before? tail s = some rest ↔ s = rest ++ tail := by
  rw [before?, Option.ite_none_right_eq_some, List.isSuffixOf_iff_suffix]
  constructor
  · rintro ⟨htail, ⟨rfl⟩⟩
    exact (List.suffix_iff_eq_append.1 htail).symm
  · rintro rfl
    exact ⟨List.suffix_append rest tail, by simp⟩

/-- What stands between `lead` and `tail`, if the text begins and ends with them. -/
def between? (lead tail s : Text) : Option Text := (after? lead s).bind (before? tail)

theorem between?_eq_some {lead tail s rest : Text} :
    between? lead tail s = some rest ↔ s = lead ++ (rest ++ tail) := by
  simp only [between?, Option.bind_eq_some_iff, after?_eq_some, before?_eq_some]
  constructor
  · rintro ⟨body, rfl, rfl⟩
    rfl
  · rintro rfl
    exact ⟨rest ++ tail, rfl, rfl⟩

/-- What precedes and what follows the first occurrence of `mark`. -/
def cut? (mark : Text) : Text → Option (Text × Text)
  | [] => (after? mark []).map ([], ·)
  | c :: rest =>
    match after? mark (c :: rest) with
    | some follows => some ([], follows)
    | none => (cut? mark rest).map fun (precedes, follows) => (c :: precedes, follows)

theorem eq_append_of_cut? {mark s precedes follows : Text}
    (h : cut? mark s = some (precedes, follows)) : s = precedes ++ mark ++ follows := by
  induction s generalizing precedes with
  | nil =>
    obtain ⟨rest, hr, he⟩ := Option.map_eq_some_iff.1 h
    cases he
    simpa using after?_eq_some.1 hr
  | cons c s ih =>
    unfold cut? at h
    split at h
    · rename_i rest hr
      cases h
      simpa using after?_eq_some.1 hr
    · obtain ⟨⟨a, b⟩, hc, he⟩ := Option.map_eq_some_iff.1 h
      cases he
      simpa using ih hc

/-- Has an occurrence of `mark`. -/
def mentions (mark s : Text) : Bool := (cut? mark s).isSome

/-- The nonempty pieces between blank characters. -/
def words (s : Text) : List Text := (s.splitOnP isBlank).filter (· ≠ [])

/-- All parts one after the other, with `sep` between neighbours. -/
def join (sep : Text) (parts : List Text) : Text := sep.intercalate parts

/-- Stands before another text in the order of the characters' codes. -/
def sortsBefore (s t : Text) : Bool := List.lex s t fun c d => c.toNat < d.toNat

/-- The bytes that store the text. -/
def utf8 (s : Text) : List UInt8 := s.flatMap String.utf8EncodeChar

/-- Number of bytes that store the text. -/
def byteSize (s : Text) : Nat := (s.map Char.utf8Size).foldr (· + ·) 0

end Text

end LineScript
