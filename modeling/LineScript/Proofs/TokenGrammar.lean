import LineScript.Proofs.Reading
import LineScript.Proofs.Scanning
import Mathlib.Data.List.Infix

/-!
Which texts begin with a conversion, and where a scan finds one. Main statement: a template has a
conversion exactly if one can be read somewhere in its text.
-/

namespace LineScript

theorem Text.balanced_of_no_bracket {s : Text} (hopening : '[' ∉ s) (hclosing : ']' ∉ s) :
    Text.Balanced s := by
  refine ⟨?_, ?_⟩
  · rw [List.count_eq_zero_of_not_mem hopening, List.count_eq_zero_of_not_mem hclosing]
  · intro p hp
    rw [List.count_eq_zero_of_not_mem fun hmem => hclosing (hp.subset hmem)]
    exact Nat.zero_le _

theorem Operand.read_of_no_bracket {s : Text} (h : '[' ∉ s) : Operand.read s = .literal s := by
  cases hname : bracketedName? s with
  | none => simp only [Operand.read, hname]
  | some name =>
    rw [(bracketedName?_eq_some.1 hname).1] at h
    simp at h

namespace Token

variable {s operator inner follows : Text} {part : Part} {depth : Nat}

/-- The bracket that closes a value is found behind all that the value closes itself. -/
theorem close?_append (follows : Text) (h : Text.Closes depth inner) :
    close? depth (inner ++ ']' :: follows) = some (inner, follows) := by
  induction inner generalizing depth with
  | nil =>
    have hdepth : depth = 0 := by simpa using h.closed.symm
    subst hdepth
    rfl
  | cons c inner ih =>
    by_cases hclosing : c = ']'
    · subst hclosing
      have hopen : 1 ≤ depth := by simpa using h.open_before [']'] ⟨inner, rfl⟩
      obtain ⟨depth, rfl⟩ := Nat.exists_eq_add_of_le' hopen
      have hrest : Text.Closes depth inner := (Text.closes_cons_iff (by simp; omega)).1 h
      simp [close?, ih hrest]
    · by_cases hopening : c = '['
      · subst hopening
        have hrest : Text.Closes (depth + 1) inner := (Text.closes_cons_iff (by simp; omega)).1 h
        simp [close?, ih hrest]
      · have hrest : Text.Closes depth inner :=
          (Text.closes_cons_iff (by simp [hclosing, hopening])).1 h
        simp [close?, hclosing, hopening, ih hrest]

/-- What is written as a conversion is read as one, whatever follows it. -/
theorem conversion?_append (follows : Text) (hne : operator ≠ [])
    (hchars : ∀ c ∈ operator, isOperatorChar c = true) (h : Text.Balanced inner) :
    conversion? (conversionText operator inner ++ follows)
      = some (.conversion operator (Operand.read inner) (conversionText operator inner),
        follows) := by
  have hbracket : isOperatorChar '[' = false := by decide
  have htext : conversionText operator inner ++ follows
      = "::".toList ++ (operator ++ '[' :: (inner ++ ']' :: follows)) := by
    simp [conversionText]
  have hafter : Text.after? "::".toList (conversionText operator inner ++ follows)
      = some (operator ++ '[' :: (inner ++ ']' :: follows)) := Text.after?_eq_some.2 htext
  have htake : (operator ++ '[' :: (inner ++ ']' :: follows)).takeWhile isOperatorChar
      = operator := by
    rw [List.takeWhile_append_of_pos hchars, List.takeWhile_cons_of_neg (by simp [hbracket]),
      List.append_nil]
  have hdrop : (operator ++ '[' :: (inner ++ ']' :: follows)).dropWhile isOperatorChar
      = ['['] ++ (inner ++ ']' :: follows) := by
    rw [List.dropWhile_append_of_pos hchars, List.dropWhile_cons_of_neg (by simp [hbracket])]
    rfl
  have hvalue : Text.after? ['['] (['['] ++ (inner ++ ']' :: follows))
      = some (inner ++ ']' :: follows) := Text.after?_eq_some.2 rfl
  simp only [conversion?, hafter, htake, hne, if_false, hdrop, hvalue, close?_append follows h,
    Option.map_some]

theorem isOperatorChar_iff {c : Char} :
    isOperatorChar c = true ↔ c.isAlphanum = true ∨ c ∈ ['_', '>', '-'] := by
  simp only [isOperatorChar, isNameChar, Bool.or_eq_true, decide_eq_true_eq, List.mem_cons,
    List.not_mem_nil, or_false]
  tauto

/-- Begins with two colons, an operator and a value between brackets whose own brackets balance. -/
def BeginsConversion (s : Text) : Prop :=
  ∃ operator value follows, s = "::".toList ++ operator ++ ['['] ++ value ++ [']'] ++ follows ∧
    operator ≠ [] ∧ (∀ c ∈ operator, c.isAlphanum = true ∨ c ∈ ['_', '>', '-']) ∧
      Text.Balanced value

theorem isSome_conversion?_iff : (conversion? s).isSome = true ↔ BeginsConversion s := by
  constructor
  · intro h
    obtain ⟨⟨part, follows⟩, hread⟩ := Option.isSome_iff_exists.1 h
    obtain ⟨operator, inner, hne, hchars, hinner, rfl, hs⟩ := exists_of_conversion? hread
    refine ⟨operator, inner, follows, hs, hne, ?_, hinner⟩
    intro c hc
    exact isOperatorChar_iff.1 (hchars c hc)
  · rintro ⟨operator, value, follows, rfl, hne, hchars, hvalue⟩
    have hread := conversion?_append follows hne
      (fun c hc => isOperatorChar_iff.2 (hchars c hc)) hvalue
    exact Option.isSome_iff_exists.2 ⟨_, hread⟩

theorem BeginsConversion.head? (h : BeginsConversion s) : s.head? = some ':' := by
  obtain ⟨operator, value, follows, rfl, _⟩ := h
  rfl

end Token

namespace Template

/-- The text of one conversion is a template of that conversion alone. -/
theorem read_conversionText {operator inner : Text} (hne : operator ≠ [])
    (hchars : ∀ c ∈ operator, Token.isOperatorChar c = true) (h : Text.Balanced inner) :
    read (Token.conversionText operator inner)
      = [.conversion operator (Operand.read inner) (Token.conversionText operator inner)] := by
  have hconversion := Token.conversion?_append [] hne hchars h
  rw [List.append_nil] at hconversion
  have htoken : Token.any? .full (Token.conversionText operator inner)
      = some (.conversion operator (Operand.read inner) (Token.conversionText operator inner),
        []) := Option.or_eq_some_iff.2 (.inl hconversion)
  have hscan := scan_of_token htoken
  rwa [scan_nil] at hscan

/-- A suffix of two texts together begins in the second one, or with a character of the first. -/
theorem suffix_append_cases {first second suffix : Text} (h : suffix <:+ first ++ second) :
    suffix <:+ second ∨ ∃ c ∈ first, suffix.head? = some c := by
  induction first with
  | nil => exact .inl h
  | cons c first ih =>
    rcases List.suffix_cons_iff.1 h with rfl | h
    · exact .inr ⟨c, List.mem_cons_self, rfl⟩
    · rcases ih h with h | ⟨d, hd, hhead⟩
      · exact .inl h
      · exact .inr ⟨d, List.mem_cons_of_mem c hd, hhead⟩

/-- No conversion begins inside a reference, as it has no colon. -/
theorem colon_not_mem_ref {name : Text} (h : isName name = true) :
    ':' ∉ (Part.ref name).source := by
  have hname : ':' ∉ name := not_mem_of_isName h (by decide)
  simp [Part.source, hname]

/-- A template has a conversion exactly if some suffix of its text begins with one. -/
theorem hasConversions_read_iff (s : Text) :
    (read s).hasConversions = true ↔ ∃ suffix, suffix <:+ s ∧ Token.BeginsConversion suffix := by
  unfold read
  induction s using scan.induct .full with
  | case1 =>
    rw [scan_nil]
    simp only [hasConversions, List.any_nil, Bool.false_eq_true, false_iff]
    rintro ⟨suffix, hsuffix, hbegins⟩
    rw [List.suffix_nil.1 hsuffix] at hbegins
    cases hbegins.head?
  | case2 c rest part follows h ih =>
    rw [scan_of_token h]
    rcases Option.or_eq_some_iff.1 h with hconversion | ⟨_, href⟩
    · have hbegins := Token.isSome_conversion?_iff.1 (Option.isSome_of_eq_some hconversion)
      obtain ⟨operator, inner, _, _, _, rfl, _⟩ := Token.exists_of_conversion? hconversion
      simp only [hasConversions, List.any_cons, Part.isConversion, Bool.true_or, true_iff]
      exact ⟨_, List.suffix_rfl, hbegins⟩
    · obtain ⟨name, hname, rfl, hs⟩ := Token.exists_of_reference? href
      have hskip : hasConversions (.ref name :: scan .full follows)
          = (scan .full follows).hasConversions := rfl
      rw [hskip, ih, hs]
      refine exists_congr fun suffix => and_congr_left fun hbegins => ?_
      constructor
      · intro hsuffix
        exact hsuffix.trans (List.suffix_append _ _)
      · intro hsuffix
        rcases suffix_append_cases hsuffix with hsuffix | ⟨x, hx, hhead⟩
        · exact hsuffix
        · rw [hbegins.head?] at hhead
          cases hhead
          exact (colon_not_mem_ref hname hx).elim
  | case3 c rest h ih =>
    have hno : ¬ Token.BeginsConversion (c :: rest) := by
      intro hbegins
      have hsome := Token.isSome_conversion?_iff.2 hbegins
      rw [(Option.or_eq_none_iff.1 h).1] at hsome
      cases hsome
    rw [scan_of_no_token h, hasConversions_push, ih]
    refine exists_congr fun suffix => and_congr_left fun hbegins => ?_
    rw [List.suffix_cons_iff]
    constructor
    · exact .inr
    · rintro (rfl | hsuffix)
      · exact (hno hbegins).elim
      · exact hsuffix

end Template

end LineScript
