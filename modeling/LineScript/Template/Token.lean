import LineScript.Operand

/-!
The tokens of a template, recognised at the start of a text. A reference is a name between brackets;
a conversion is two colons, an operator and a value between brackets, whose own brackets balance.
-/

namespace LineScript

inductive Part where
  | literal (text : Text)
  /-- The value of the named variable. -/
  | ref (name : Text)
  /-- The result of an operator; `raw` is the token as it was written. -/
  | conversion (operator : Text) (value : Operand) (raw : Text)
  deriving DecidableEq, Repr

namespace Part

def isConversion : Part → Bool
  | conversion .. => true
  | _ => false

/-- The text that the part was written as. -/
def source : Part → Text
  | literal text => text
  | ref name => ['['] ++ name ++ [']']
  | conversion _ _ raw => raw

end Part

namespace Token

def isOperatorChar (c : Char) : Bool := isNameChar c || c = '>'

/-- What stands before and after the bracket that closes a value, given how many brackets inside the
value are open. -/
def close? : Nat → Text → Option (Text × Text)
  | _, [] => none
  | depth, c :: rest =>
    if c = ']' then
      match depth with
      | 0 => some ([], rest)
      | depth + 1 => (close? depth rest).map fun (inner, follows) => (c :: inner, follows)
    else
      (close? (if c = '[' then depth + 1 else depth) rest).map
        fun (inner, follows) => (c :: inner, follows)

/-- A reference at the start of the text, and what follows it. -/
def reference? (s : Text) : Option (Part × Text) :=
  match Text.after? ['['] s with
  | none => none
  | some body =>
    match Text.cut? [']'] body with
    | none => none
    | some (name, follows) => if isName name then some (.ref name, follows) else none

/-- The text of a conversion. -/
def conversionText (operator value : Text) : Text :=
  "::".toList ++ operator ++ ['['] ++ value ++ [']']

/-- A conversion at the start of the text, and what follows it. -/
def conversion? (s : Text) : Option (Part × Text) :=
  match Text.after? "::".toList s with
  | none => none
  | some body =>
    let operator := body.takeWhile isOperatorChar
    if operator = [] then none
    else
      match Text.after? ['['] (body.dropWhile isOperatorChar) with
      | none => none
      | some bracketed =>
        (close? 0 bracketed).map fun (value, follows) =>
          (.conversion operator (Operand.read value) (conversionText operator value), follows)

/-- Which tokens a template has. -/
inductive Mode where
  /-- References and conversions. -/
  | full
  /-- References alone. -/
  | plain
  deriving DecidableEq, Repr

/-- A token of the mode at the start of the text, and what follows it. -/
def any? : Mode → Text → Option (Part × Text)
  | .full, s => (conversion? s).or (reference? s)
  | .plain, s => reference? s

theorem eq_append_of_close? {depth : Nat} {s inner follows : Text}
    (h : close? depth s = some (inner, follows)) : s = inner ++ [']'] ++ follows := by
  induction s generalizing depth inner with
  | nil => simp [close?] at h
  | cons c rest ih =>
    unfold close? at h
    split at h
    · rename_i hc
      subst hc
      cases depth with
      | zero => simp_all
      | succ depth =>
        obtain ⟨⟨a, b⟩, hr, he⟩ := Option.map_eq_some_iff.1 h
        cases he
        simpa using ih hr
    · obtain ⟨⟨a, b⟩, hr, he⟩ := Option.map_eq_some_iff.1 h
      cases he
      simpa using ih hr

theorem length_lt_of_reference? {s follows : Text} {part : Part}
    (h : reference? s = some (part, follows)) : follows.length < s.length := by
  unfold reference? at h
  split at h <;> try contradiction
  rename_i body hb
  split at h <;> try contradiction
  rename_i name rest hc
  split at h <;> try contradiction
  cases h
  rw [Text.after?_eq_some.1 hb, Text.eq_append_of_cut? hc]
  simp
  omega

theorem length_lt_of_conversion? {s follows : Text} {part : Part}
    (h : conversion? s = some (part, follows)) : follows.length < s.length := by
  unfold conversion? at h
  split at h <;> try contradiction
  rename_i body hb
  dsimp only at h
  split at h <;> try contradiction
  split at h <;> try contradiction
  rename_i bracketed hv
  obtain ⟨⟨a, b⟩, hr, he⟩ := Option.map_eq_some_iff.1 h
  cases he
  have hs := congrArg List.length
    (List.takeWhile_append_dropWhile (p := isOperatorChar) (l := body))
  rw [Text.after?_eq_some.1 hv, eq_append_of_close? hr] at hs
  rw [Text.after?_eq_some.1 hb]
  simp at hs ⊢
  omega

theorem length_lt_of_any? {mode : Mode} {s follows : Text} {part : Part}
    (h : any? mode s = some (part, follows)) : follows.length < s.length := by
  cases mode with
  | full =>
    rcases Option.or_eq_some_iff.1 h with h | ⟨-, h⟩
    · exact length_lt_of_conversion? h
    · exact length_lt_of_reference? h
  | plain => exact length_lt_of_reference? h

end Token

end LineScript
