import LineScript.Comparison
import LineScript.Proofs.Literals

/-!
Comparisons of operands. Main statement: the six comparisons fit together whatever the operands
are, and on decimal literals they follow the exact values: rounding may make different values equal
but never turns them around, and integers of up to 53 bits are compared exactly.
-/

namespace LineScript

namespace Comparison

open Number (Literal)
open Number.Binary64 (Rounds clamp one)

variable {i j : Int} {x y : Rat} {l r : Text}

/-- The exact order of two values. -/
def Relates (x y : Rat) : Comparison → Prop
  | equal => x = y
  | notEqual => x ≠ y
  | atMost => x ≤ y
  | atLeast => y ≤ x
  | less => x < y
  | greater => y < x

/-- What the comparisons say of two operands fits together, and with what they say of the same
operands in the other order. -/
structure Coherent (forth back : Comparison → Bool) : Prop where
  notEqual_eq : forth notEqual = !forth equal
  less_eq : forth less = back greater
  atMost_eq : forth atMost = back atLeast
  equal_eq : forth equal = back equal
  atMostOne : ∀ c ∈ [less, equal, greater], ∀ c' ∈ [less, equal, greater],
    forth c = true → forth c' = true → c = c'
  atMost_of_less : forth less = true → forth atMost = true

/-- The comparisons of operands in no order. -/
def unordered (same : Bool) : Comparison → Bool
  | equal => same
  | notEqual => !same
  | _ => false

theorem coherent_holdsInt (i j : Int) : Coherent (holdsInt i j) (holdsInt j i) where
  notEqual_eq := by simp [holdsInt]
  less_eq := rfl
  atMost_eq := rfl
  equal_eq := by simp [holdsInt, eq_comm]
  atMostOne := by
    simp [holdsInt]
    omega
  atMost_of_less := by
    simp [holdsInt]
    omega

theorem coherent_unordered (same : Bool) : Coherent (unordered same) (unordered same) where
  notEqual_eq := rfl
  less_eq := rfl
  atMost_eq := rfl
  equal_eq := rfl
  atMostOne := by cases same <;> decide
  atMost_of_less := id

theorem holdsText_eq (l r : Text) : holdsText l r = unordered (l = r) := by
  funext c
  cases c <;> simp [holdsText, unordered]

theorem holdsText_swap (l r : Text) : holdsText r l = unordered (l = r) := by
  rw [holdsText_eq]
  congr 1
  exact decide_eq_decide.2 eq_comm

/-- Two numbers are compared as integers, or one of them is not a number after all. -/
theorem holdsNumber_cases (a b : Number.Binary64) :
    (∃ i j, holdsNumber a b = holdsInt i j ∧ holdsNumber b a = holdsInt j i) ∨
      holdsNumber a b = unordered false ∧ holdsNumber b a = unordered false := by
  have hnan (b : Number.Binary64) : holdsNumber .nan b = unordered false := by
    funext c
    cases c <;> rfl
  have hnan' (a : Number.Binary64) : holdsNumber a .nan = unordered false := by
    funext c
    cases a <;> cases c <;> rfl
  cases a with
  | nan => exact .inr ⟨hnan b, hnan' b⟩
  | units i =>
    cases b with
    | nan => exact .inr ⟨hnan' _, hnan _⟩
    | units j => exact .inl ⟨i, j, rfl, rfl⟩

theorem holds_of_numbers {a b : Number.Binary64} (hl : Number.Binary64.read? l = some a)
    (hr : Number.Binary64.read? r = some b) : holds l r = holdsNumber a b := by
  funext c
  simp only [holds, hl, hr]

theorem holds_of_text (h : Number.Binary64.read? l = none ∨ Number.Binary64.read? r = none) :
    holds l r = holdsText l r := by
  funext c
  rcases h with h | h
  · simp only [holds, h]
  · cases hl : Number.Binary64.read? l <;> simp only [holds, hl, h]

/-- Two operands are compared as integers, or they are in no order. -/
theorem holds_cases (l r : Text) :
    (∃ i j, holds l r = holdsInt i j ∧ holds r l = holdsInt j i) ∨
      ∃ same, holds l r = unordered same ∧ holds r l = unordered same := by
  by_cases htext : Number.Binary64.read? l = none ∨ Number.Binary64.read? r = none
  · right
    exact ⟨_, (holds_of_text htext).trans (holdsText_eq l r),
      (holds_of_text htext.symm).trans (holdsText_swap l r)⟩
  · obtain ⟨hl, hr⟩ := not_or.1 htext
    obtain ⟨a, ha⟩ := Option.ne_none_iff_exists'.1 hl
    obtain ⟨b, hb⟩ := Option.ne_none_iff_exists'.1 hr
    rw [holds_of_numbers ha hb, holds_of_numbers hb ha]
    exact (holdsNumber_cases a b).imp id fun h => ⟨false, h⟩

theorem coherent_holds (l r : Text) : Coherent (holds l r) (holds r l) := by
  obtain ⟨i, j, hforth, hback⟩ | ⟨same, hforth, hback⟩ := holds_cases l r
  · rw [hforth, hback]
    exact coherent_holdsInt i j
  · rw [hforth, hback]
    exact coherent_unordered same

/-- Literals are compared by what their values round to. -/
theorem holds_of_literals (hl : Literal l x) (hr : Literal r y) :
    ∃ n m, Rounds (x * one) n ∧ Rounds (y * one) m ∧ holds l r = holdsInt (clamp n) (clamp m) := by
  obtain ⟨n, hn, hreadl⟩ := Number.Binary64.read?_of_literal hl
  obtain ⟨m, hm, hreadr⟩ := Number.Binary64.read?_of_literal hr
  refine ⟨n, m, hn, hm, ?_⟩
  rw [holds_of_numbers hreadl hreadr]
  rfl

theorem mul_one_le (h : x ≤ y) : x * one ≤ y * one :=
  mul_le_mul_of_nonneg_right h (Nat.cast_nonneg one)

theorem atMost_of_le (hl : Literal l x) (hr : Literal r y) (h : x ≤ y) :
    holds l r atMost = true := by
  obtain ⟨n, m, hn, hm, hholds⟩ := holds_of_literals hl hr
  rw [hholds]
  exact decide_eq_true (Number.Binary64.clamp_mono (hn.le hm (mul_one_le h)))

theorem equal_of_eq (hl : Literal l x) (hr : Literal r x) : holds l r equal = true := by
  obtain ⟨n, m, hn, hm, hholds⟩ := holds_of_literals hl hr
  rw [hholds, hn.unique hm]
  exact decide_eq_true rfl

theorem lt_of_less (hl : Literal l x) (hr : Literal r y) (h : holds l r less = true) : x < y := by
  obtain ⟨n, m, hn, hm, hholds⟩ := holds_of_literals hl hr
  rw [hholds] at h
  by_contra hle
  have hmn := Number.Binary64.clamp_mono (hm.le hn (mul_one_le (not_lt.1 hle)))
  exact (of_decide_eq_true h).not_ge hmn

/-- Comparisons of whole numbers of units follow the order of the integers. -/
theorem holdsInt_mul_one (i j : Int) (c : Comparison) :
    holdsInt (i * one) (j * one) c = true ↔ c.Relates i j := by
  have hone : (0 : Int) < one := by exact_mod_cast Number.Binary64.one_pos
  have heq (i j : Int) : i * (one : Int) = j * one ↔ i = j := mul_left_inj' hone.ne'
  have hle (i j : Int) : i * (one : Int) ≤ j * one ↔ i ≤ j := mul_le_mul_iff_of_pos_right hone
  have hlt (i j : Int) : i * (one : Int) < j * one ↔ i < j := mul_lt_mul_iff_of_pos_right hone
  cases c <;> simp only [holdsInt, Relates, ne_eq, decide_eq_true_eq, heq, hle, hlt, Int.cast_inj,
    Int.cast_le, Int.cast_lt]

/-- Integers of up to 53 bits are read exactly, so that their comparisons are exact. -/
theorem holds_iff_relates (hl : Literal l i) (hr : Literal r j) (hi : |i| ≤ 2 ^ 53)
    (hj : |j| ≤ 2 ^ 53) (c : Comparison) : holds l r c = true ↔ c.Relates i j := by
  obtain ⟨n, m, hn, hm, hholds⟩ := holds_of_literals hl hr
  rw [hholds, hn.eq_mul_one hi, hm.eq_mul_one hj, Number.Binary64.clamp_mul_one hi,
    Number.Binary64.clamp_mul_one hj]
  exact holdsInt_mul_one i j c

end Comparison

/-- Comparisons are coherent for all operands and faithful to exact values. Operands are numbers if
they are literals or one of the words for infinity and for what is not a number. Of two literals the
one of the lesser value is at most the other, those of one value are equal, one is less only if its
value is, and integers of up to 53 bits compare as their values do. -/
theorem comparisons_follow_exact_values (l r : Text) :
    Comparison.Coherent (Comparison.holds l r) (Comparison.holds r l) ∧
      (∀ s, (Number.Binary64.read? s).isSome = true ↔
        (∃ x, Number.Literal s x) ∨ Number.Word s) ∧
      ∀ x y : Rat, Number.Literal l x → Number.Literal r y →
        (x ≤ y → Comparison.holds l r .atMost = true) ∧
        (x = y → Comparison.holds l r .equal = true) ∧
        (Comparison.holds l r .less = true → x < y) ∧
        ∀ i j : Int, x = i → y = j → |i| ≤ 2 ^ 53 → |j| ≤ 2 ^ 53 →
          ∀ c, Comparison.holds l r c = true ↔ c.Relates x y := by
  refine ⟨Comparison.coherent_holds l r, Number.Binary64.isSome_read?_iff, ?_⟩
  intro x y hl hr
  refine ⟨Comparison.atMost_of_le hl hr, ?_, Comparison.lt_of_less hl hr, ?_⟩
  · rintro rfl
    exact Comparison.equal_of_eq hl hr
  · rintro i j rfl rfl hi hj
    exact Comparison.holds_iff_relates hl hr hi hj

-- Beyond 53 bits different values may be equal.
example : Comparison.holds "9007199254740993".toList "9007199254740992".toList .equal = true := by
  decide +kernel

/-- The least integer of those that are compared exactly. -/
def leastExact : Text := "-9007199254740992".toList

/-- The greatest of them, with a point and an exponent. -/
def greatestExact : Text := ".9007199254740992E+16".toList

theorem exact_bounds_are_compared_exactly :
    Number.Literal leastExact (-2 ^ 53 : Int) ∧ Number.Literal greatestExact (2 ^ 53 : Int) ∧
      Comparison.holds leastExact greatestExact .atMost = true ∧
      Comparison.holds greatestExact greatestExact .equal = true ∧
      Comparison.holds leastExact greatestExact .less = true ∧
      ((-2 ^ 53 : Int) : Rat) < (2 ^ 53 : Int) ∧
      ∀ c : Comparison, Comparison.holds leastExact greatestExact c = true ↔
        c.Relates (-2 ^ 53 : Int) (2 ^ 53 : Int) := by
  have hdigits : Numeral.Denotes 10 "9007199254740992".toList (2 ^ 53) :=
    Numeral.denotes_iff.2 (by decide)
  have hexponent : Numeral.Denotes 10 "16".toList 16 := Numeral.denotes_iff.2 (by decide)
  have hleast : Number.Literal leastExact (-2 ^ 53 : Int) := by
    have hvalue : ((-2 ^ 53 : Int) : Rat)
        = ((-1 : Int) : Rat) * ((2 ^ 53 : Nat) * 10 ^ ((0 : Int) - (0 : Nat))) := by norm_num
    have htext : leastExact = ['-'] ++ ("9007199254740992".toList ++ []) := by decide
    rw [hvalue, htext]
    exact .intro .minus (.whole (by decide) hdigits) .none
  have hgreatest : Number.Literal greatestExact (2 ^ 53 : Int) := by
    have hvalue : ((2 ^ 53 : Int) : Rat)
        = ((1 : Int) : Rat) * ((2 ^ 53 : Nat) * 10 ^ ((1 * (16 : Nat) : Int) - (16 : Nat))) := by
      norm_num
    have htext : greatestExact = [] ++ (([] ++ '.' :: "9007199254740992".toList) ++
        'E' :: (['+'] ++ "16".toList)) := by decide
    rw [hvalue, htext]
    exact .intro .none (.point (by decide) hdigits) (.some (.inr rfl) .plus (by decide) hexponent)
  obtain ⟨_, _, hvalues⟩ := comparisons_follow_exact_values leastExact greatestExact
  obtain ⟨hatMost, _, hless, hexact⟩ := hvalues _ _ hleast hgreatest
  obtain ⟨_, _, hsame⟩ := comparisons_follow_exact_values greatestExact greatestExact
  have hall := hexact _ _ rfl rfl (by norm_num) (by norm_num)
  have hlt := (hall .less).2 (show ((-2 ^ 53 : Int) : Rat) < (2 ^ 53 : Int) by norm_num)
  exact ⟨hleast, hgreatest, hatMost (by norm_num), (hsame _ _ hgreatest hgreatest).2.1 rfl, hlt,
    hless hlt, hall⟩

end LineScript
