import LineScript.Proofs.Numerals
import LineScript.Proofs.Rounding

/-!
Decimal literals and their exact values. Main statement: the texts that are read as numbers are
the decimal literals and the words for infinity and for what is not a number; a literal is read as
the binary number that its exact value rounds to.
-/

namespace LineScript.Number

variable {c : Char} {n places : Nat} {e factor : Int} {x : Rat}
  {s sign digits body tail whole part : Text}

/-- The text is a sign, or nothing, and stands for the factor. -/
inductive Sign : Text → Int → Prop
  | none : Sign [] 1
  | plus : Sign ['+'] 1
  | minus : Sign ['-'] (-1)

/-- The text is a row of digits with at most one point, and at least one digit: without the point
it denotes the number, and so many of its digits stand behind the point. -/
inductive Digits : Text → Nat → Nat → Prop
  | whole {digits : Text} {n : Nat} : digits ≠ [] → Numeral.Denotes 10 digits n → Digits digits n 0
  | point {whole part : Text} {n : Nat} : whole ++ part ≠ [] →
      Numeral.Denotes 10 (whole ++ part) n → Digits (whole ++ '.' :: part) n part.length

/-- The text is an exponent of ten, or nothing. -/
inductive Exponent : Text → Int → Prop
  | none : Exponent [] 0
  | some {mark : Char} {sign digits : Text} {factor : Int} {n : Nat} : mark = 'e' ∨ mark = 'E' →
      Sign sign factor → digits ≠ [] → Numeral.Denotes 10 digits n →
      Exponent (mark :: (sign ++ digits)) (factor * n)

/-- The text is a decimal literal of the value. -/
inductive Literal : Text → Rat → Prop
  | intro {sign body tail : Text} {factor e : Int} {n places : Nat} : Sign sign factor →
      Digits body n places → Exponent tail e →
      Literal (sign ++ (body ++ tail)) (factor * (n * 10 ^ (e - places)))

/-- The words for infinity and for what is not a number. -/
def words : List Text := ["INF".toList, "INFINITY".toList, "NAN".toList]

/-- The text is one of the words, in any case and with any sign. -/
inductive Word : Text → Prop
  | intro {sign word : Text} {factor : Int} : Sign sign factor → Text.asciiUpper word ∈ words →
      Word (sign ++ word)

/-- The text does not begin with a sign. -/
def Unsigned (s : Text) : Prop := s.head? ≠ some '+' ∧ s.head? ≠ some '-'

theorem exists_sign (s : Text) :
    ∃ sign factor rest, Sign sign factor ∧ s = sign ++ rest ∧ (sign = [] → Unsigned rest) := by
  by_cases hplus : s.head? = some '+'
  · obtain ⟨rest, rfl⟩ := List.head?_eq_some_iff.1 hplus
    exact ⟨['+'], 1, rest, .plus, rfl, by simp⟩
  · by_cases hminus : s.head? = some '-'
    · obtain ⟨rest, rfl⟩ := List.head?_eq_some_iff.1 hminus
      exact ⟨['-'], -1, rest, .minus, rfl, by simp⟩
    · exact ⟨[], 1, s, .none, rfl, fun _ => ⟨hplus, hminus⟩⟩

/-- A literal without its sign begins with a digit or with the point. -/
def IsFirst (c : Char) : Prop := Decimal.isDigit c = true ∨ c = '.'

theorem unsigned_of_isFirst (hhead : s.head? = some c) (hc : IsFirst c) : Unsigned s := by
  unfold Unsigned
  rw [hhead]
  constructor <;>
  · rintro ⟨⟩
    revert hc
    unfold IsFirst
    decide

namespace Decimal

theorem head?_of_denotes (hne : digits ≠ []) (h : Numeral.Denotes 10 digits n) (tail : Text) :
    ∃ c, (digits ++ tail).head? = some c ∧ isDigit c = true := by
  obtain ⟨c, rest, rfl⟩ := List.exists_cons_of_ne_nil hne
  exact ⟨c, rfl, h.isDigit List.mem_cons_self⟩

theorem integer?_sign (hsign : Sign sign factor) (h : sign = [] → Unsigned s) :
    integer? (sign ++ s) = (Numeral.read? 10 s).map fun n : Nat => factor * n := by
  cases hsign with
  | none =>
    obtain ⟨hplus, hminus⟩ := h rfl
    rw [List.nil_append]
    unfold integer?
    split
    · exact (hplus rfl).elim
    · exact (hminus rfl).elim
    · cases Numeral.read? 10 s <;> simp
  | plus => cases hread : Numeral.read? 10 s <;> simp [integer?, hread]
  | minus => cases hread : Numeral.read? 10 s <;> simp [integer?, hread]

theorem integer?_eq_some : integer? s = some e ↔ ∃ sign digits factor n, Sign sign factor ∧
    digits ≠ [] ∧ Numeral.Denotes 10 digits n ∧ s = sign ++ digits ∧ e = factor * n := by
  constructor
  · intro h
    obtain ⟨sign, factor, digits, hsign, rfl, hunsigned⟩ := exists_sign s
    rw [integer?_sign hsign hunsigned, Option.map_eq_some_iff] at h
    obtain ⟨n, hn, rfl⟩ := h
    obtain ⟨hne, hdigits⟩ := Numeral.read?_eq_some.1 hn
    exact ⟨sign, digits, factor, n, hsign, hne, hdigits, rfl, rfl⟩
  · rintro ⟨sign, digits, factor, n, hsign, hne, hdigits, rfl, rfl⟩
    obtain ⟨c, hhead, hc⟩ := head?_of_denotes hne hdigits []
    rw [List.append_nil] at hhead
    rw [integer?_sign hsign fun _ => unsigned_of_isFirst hhead (.inl hc),
      Numeral.read?_eq_some.2 ⟨hne, hdigits⟩, Option.map_some]

theorem exponent?_eq_some : exponent? s = some e ↔ Exponent s e := by
  constructor
  · intro h
    cases s with
    | nil =>
      cases h
      exact .none
    | cons mark s =>
      simp only [exponent?] at h
      split at h
      · rename_i hmark
        obtain ⟨sign, digits, factor, n, hsign, hne, hdigits, rfl, rfl⟩ := integer?_eq_some.1 h
        exact .some hmark hsign hne hdigits
      · cases h
  · intro h
    cases h with
    | none => rfl
    | some hmark hsign hne hdigits =>
      rw [exponent?, if_pos hmark]
      exact integer?_eq_some.2 ⟨_, _, _, _, hsign, hne, hdigits, rfl, rfl⟩

/-- What begins an exponent is neither a digit nor the point. -/
theorem not_isFirst_of_exponent (h : Exponent tail e) (hhead : tail.head? = some c) :
    ¬ IsFirst c := by
  cases h with
  | none => cases hhead
  | some hmark =>
    cases hhead
    unfold IsFirst
    rcases hmark with rfl | rfl <;> decide

/-- Digits are taken up to the first character that is none. -/
theorem span_append (h : digits.all isDigit = true)
    (htail : ∀ c, tail.head? = some c → isDigit c = false) :
    (digits ++ tail).span isDigit = (digits, tail) := by
  have hdigits := List.all_eq_true.1 h
  rw [List.span_eq_takeWhile_dropWhile, List.takeWhile_append_of_pos hdigits,
    List.dropWhile_append_of_pos hdigits]
  cases tail with
  | nil => simp
  | cons c rest =>
    have hc := htail c rfl
    rw [List.takeWhile_cons_of_neg (by simp [hc]), List.dropWhile_cons_of_neg (by simp [hc]),
      List.append_nil]

theorem exists_span (s : Text) : ∃ digits rest, s.span isDigit = (digits, rest) ∧
    s = digits ++ rest ∧ digits.all isDigit = true :=
  ⟨_, _, List.span_eq_takeWhile_dropWhile isDigit s, List.takeWhile_append_dropWhile.symm,
    List.all_takeWhile⟩

theorem fraction_of_head? (h : s.head? ≠ some '.') : fraction s = ([], s) := by
  unfold fraction
  split
  · exact (h rfl).elim
  · rfl

/-- There is a point and digits after it, or there is neither. -/
theorem exists_fraction (s : Text) : ∃ part rest, fraction s = (part, rest) ∧
    part.all isDigit = true ∧ (s = '.' :: (part ++ rest) ∨ part = [] ∧ s = rest) := by
  by_cases hpoint : s.head? = some '.'
  · obtain ⟨after, rfl⟩ := List.head?_eq_some_iff.1 hpoint
    obtain ⟨part, rest, hspan, rfl, hpart⟩ := exists_span after
    exact ⟨part, rest, hspan, hpart, .inl rfl⟩
  · exact ⟨[], s, fraction_of_head? hpoint, rfl, .inr ⟨rfl, rfl⟩⟩

theorem read?_eq_of {rest : Text} (hwhole : s.span isDigit = (whole, rest))
    (hpart : fraction rest = (part, tail)) :
    read? s = if whole ++ part = [] then none
      else (exponent? tail).map fun e => ⟨Numeral.value 10 (whole ++ part), e - part.length⟩ := by
  simp only [read?, hwhole, hpart]

/-- What is read as a number without a sign is digits, with a point somewhere or without one, and
then an exponent. -/
theorem exists_of_read? {d : Decimal} (h : read? s = some d) :
    ∃ body tail n places e, Digits body n places ∧ Exponent tail e ∧ s = body ++ tail := by
  obtain ⟨whole, rest, hspan, rfl, hwhole⟩ := exists_span s
  obtain ⟨part, tail, hfraction, hpart, hrest⟩ := exists_fraction rest
  rw [read?_eq_of hspan hfraction] at h
  split at h
  · cases h
  · rename_i hne
    obtain ⟨e, he, rfl⟩ := Option.map_eq_some_iff.1 h
    have hexponent := exponent?_eq_some.1 he
    have hall : (whole ++ part).all isDigit = true := by
      rw [List.all_append, hwhole, hpart]
      rfl
    have hdenotes := Numeral.denotes_iff.2 ⟨hall, rfl⟩
    rcases hrest with rfl | ⟨rfl, rfl⟩
    · exact ⟨_, tail, _, _, e, .point hne hdenotes, hexponent, by simp⟩
    · rw [List.append_nil] at hne hdenotes
      exact ⟨whole, rest, _, _, e, .whole hne hdenotes, hexponent, rfl⟩

theorem read?_append (hbody : Digits body n places) (htail : Exponent tail e) :
    read? (body ++ tail) = some ⟨n, e - places⟩ := by
  have hexponent := exponent?_eq_some.2 htail
  have hend : ∀ c, tail.head? = some c → isDigit c = false := by
    intro c hc
    exact eq_false_of_ne_true fun h => not_isFirst_of_exponent htail hc (.inl h)
  cases hbody with
  | whole hne hdigits =>
    obtain ⟨hall, hvalue⟩ := Numeral.denotes_iff.1 hdigits
    have hpoint : tail.head? ≠ some '.' :=
      fun hc => not_isFirst_of_exponent htail hc (.inr rfl)
    rw [read?_eq_of (span_append hall hend) (fraction_of_head? hpoint), List.append_nil,
      if_neg hne, hexponent, hvalue]
    rfl
  | @point whole part n hne hdigits =>
    obtain ⟨hall, hvalue⟩ := Numeral.denotes_iff.1 hdigits
    rw [List.all_append, Bool.and_eq_true] at hall
    have hspan : (whole ++ '.' :: (part ++ tail)).span isDigit
        = (whole, '.' :: (part ++ tail)) := by
      refine span_append hall.1 ?_
      rintro c ⟨⟩
      decide
    rw [List.append_assoc, List.cons_append, read?_eq_of hspan (span_append hall.2 hend),
      if_neg hne, hexponent, hvalue]
    rfl

end Decimal

theorem Digits.head? (h : Digits body n places) (tail : Text) :
    ∃ c, (body ++ tail).head? = some c ∧ IsFirst c := by
  cases h with
  | whole hne hdigits =>
    obtain ⟨c, hhead, hc⟩ := Decimal.head?_of_denotes hne hdigits tail
    exact ⟨c, hhead, .inl hc⟩
  | @point whole part n hne hdigits =>
    cases whole with
    | nil => exact ⟨'.', rfl, .inr rfl⟩
    | cons c rest => exact ⟨c, rfl, .inl (hdigits.isDigit (by simp))⟩

namespace Binary64

theorem isSome_word? : (word? s).isSome = true ↔ Text.asciiUpper s ∈ words := by
  simp only [word?, words, List.mem_cons, List.not_mem_nil, or_false]
  generalize "INF".toList = inf, "INFINITY".toList = infinity, "NAN".toList = nan
  rw [← or_assoc]
  split
  · simp_all
  · split <;> simp_all

/-- A word begins with a letter that is no digit. -/
theorem head?_of_mem_words (h : Text.asciiUpper s ∈ words) :
    ∃ c, s.head? = some c ∧ (c.toUpper = 'I' ∨ c.toUpper = 'N') := by
  have hall : ∀ word ∈ words, word.head? = some 'I' ∨ word.head? = some 'N' := by decide
  have hhead := hall _ h
  rw [Text.asciiUpper, List.head?_map] at hhead
  cases hs : s.head? with
  | none => simp [hs] at hhead
  | some c => exact ⟨c, rfl, by simpa [hs] using hhead⟩

theorem toUpper_of_isFirst (h : IsFirst c) : c.toUpper ≠ 'I' ∧ c.toUpper ≠ 'N' := by
  have hall : ('.' :: (Numeral.upperDigits ++ Numeral.lowerDigits)).all
      (fun c => c.toUpper ≠ 'I' ∧ c.toUpper ≠ 'N') = true := by decide
  refine of_decide_eq_true (List.all_eq_true.1 hall c (List.mem_cons.2 ?_))
  rcases h with hdigit | rfl
  · obtain ⟨d, hd⟩ := Option.isSome_iff_exists.1 hdigit
    have hdigit := (Numeral.digit?_eq_some.1 hd).1
    exact .inr (List.mem_append.2 (hdigit.imp List.mem_of_getElem? List.mem_of_getElem?))
  · exact .inl rfl

/-- No word begins as a literal does. -/
theorem word?_of_isFirst (hhead : s.head? = some c) (hc : IsFirst c) : word? s = none := by
  rw [← Option.not_isSome_iff_eq_none, isSome_word?]
  intro hword
  obtain ⟨c', hhead', hletter⟩ := head?_of_mem_words hword
  obtain rfl : c = c' := Option.some.inj (hhead.symm.trans hhead')
  exact hletter.elim (toUpper_of_isFirst hc).1 (toUpper_of_isFirst hc).2

theorem unsigned_of_mem_words (h : Text.asciiUpper s ∈ words) : Unsigned s := by
  obtain ⟨c, hhead, hletter⟩ := head?_of_mem_words h
  unfold Unsigned
  rw [hhead]
  constructor <;>
  · rintro ⟨⟩
    revert hletter
    decide

theorem read?_sign (hsign : Sign sign factor) (h : sign = [] → Unsigned s) :
    read? (sign ++ s) = (magnitude? s).map (ofMagnitude (decide (factor < 0))) := by
  cases hsign with
  | none =>
    obtain ⟨hplus, hminus⟩ := h rfl
    rw [List.nil_append]
    unfold read?
    split
    · exact (hplus rfl).elim
    · exact (hminus rfl).elim
    · rfl
  | plus => rfl
  | minus => rfl

/-- A literal is read as the number that its value rounds to. -/
theorem read?_of_literal (h : Literal s x) :
    ∃ n, Rounds (x * one) n ∧ read? s = some (units (clamp n)) := by
  obtain ⟨hsign, hbody, htail⟩ := h
  rename_i sign body tail factor e n places
  obtain ⟨c, hhead, hc⟩ := hbody.head? tail
  obtain ⟨m, hm, hround⟩ := ofDecimal_rounds ⟨n, e - places⟩
  have hmagnitude : magnitude? (body ++ tail) = some (some (min m infinity)) := by
    rw [magnitude?, word?_of_isFirst hhead hc, Decimal.read?_append hbody htail, ← hround]
    rfl
  rw [read?_sign hsign fun _ => unsigned_of_isFirst hhead hc, hmagnitude]
  rw [Decimal.toRat] at hm
  cases hsign with
  | none =>
    rw [Int.cast_one, one_mul]
    exact ⟨m, hm, by rw [clamp_natCast]; rfl⟩
  | plus =>
    rw [Int.cast_one, one_mul]
    exact ⟨m, hm, by rw [clamp_natCast]; rfl⟩
  | minus =>
    rw [Int.cast_neg, Int.cast_one, neg_one_mul, neg_mul]
    exact ⟨-m, hm.neg, by rw [clamp_neg, clamp_natCast]; rfl⟩

/-- Nothing is read as a number but literals and the words. -/
theorem isSome_read?_iff (s : Text) :
    (read? s).isSome = true ↔ (∃ x, Literal s x) ∨ Word s := by
  constructor
  · intro h
    obtain ⟨sign, factor, rest, hsign, rfl, hunsigned⟩ := exists_sign s
    rw [read?_sign hsign hunsigned, Option.isSome_map, magnitude?, Option.isSome_or,
      Bool.or_eq_true, isSome_word?, Option.isSome_map] at h
    rcases h with hword | hread
    · exact .inr ⟨hsign, hword⟩
    · obtain ⟨d, hd⟩ := Option.isSome_iff_exists.1 hread
      obtain ⟨body, tail, n, places, e, hbody, htail, rfl⟩ := Decimal.exists_of_read? hd
      exact .inl ⟨_, .intro hsign hbody htail⟩
  · rintro (⟨x, hliteral⟩ | ⟨hsign, hword⟩)
    · obtain ⟨n, _, hread⟩ := read?_of_literal hliteral
      rw [hread]
      rfl
    · rw [read?_sign hsign fun _ => unsigned_of_mem_words hword, Option.isSome_map, magnitude?,
        Option.isSome_or, isSome_word?.2 hword]
      rfl

end Binary64

end LineScript.Number
