import LineScript.Number.Binary64
import Mathlib.Algebra.Order.Field.Basic
import Mathlib.Algebra.Order.Field.Rat
import Mathlib.Tactic.FieldSimp
import Mathlib.Tactic.Linarith
import Mathlib.Tactic.NormNum
import Mathlib.Tactic.Ring

/-!
Decimals rounded to binary numbers. Main statement: a decimal is rounded to the nearest multiple of
a unit that has 53 significant bits, a tie to the one whose last bit is even, and beyond infinity to
infinity. What is nearest follows the order of the values, so that rounding never turns two decimals
around.
-/

namespace LineScript.Number

/-- The value of a decimal. -/
def Decimal.toRat (d : Decimal) : Rat := d.digits * 10 ^ d.exponent

theorem Decimal.toRat_nonneg (d : Decimal) : 0 ≤ d.toRat :=
  mul_nonneg (Nat.cast_nonneg _) (zpow_pos (by norm_num) _).le

namespace Binary64

variable {a b bits j : Nat} {m n p q : Int} {x y : Rat}

/-- The number of units has so many significant bits. -/
def Fits (bits : Nat) (n : Int) : Prop := ∃ (m : Int) (k : Nat), |m| < 2 ^ bits ∧ n = m * 2 ^ k

/-- The number of units is what a value rounds to if exponents have no upper end: no other is
nearer, and if another is as near then the last of the 53 bits is not set. -/
structure Rounds (x : Rat) (n : Int) : Prop where
  fits : Fits 53 n
  nearest : ∀ m, Fits 53 m → |x - n| ≤ |x - m|
  even : ∀ m, Fits 53 m → |x - n| = |x - m| → n = m ∨ ∃ half, Fits 52 half ∧ n = 2 * half

/-- Units that do not go beyond infinity on either side. -/
def clamp (n : Int) : Int := max (-infinity) (min n infinity)

theorem clamp_mono (h : n ≤ m) : clamp n ≤ clamp m :=
  max_le_max_left _ (min_le_min_right _ h)

theorem clamp_neg (n : Int) : clamp (-n) = -clamp n := by
  unfold clamp
  omega

theorem clamp_natCast (n : Nat) : clamp n = (min n infinity : Nat) := by
  unfold clamp
  omega

theorem Fits.neg (h : Fits bits n) : Fits bits (-n) := by
  obtain ⟨m, k, hm, rfl⟩ := h
  exact ⟨-m, k, by rwa [abs_neg], by ring⟩

theorem Rounds.neg (h : Rounds x n) : Rounds (-x) (-n) := by
  have hmirror (m : Int) : |-x - (m : Int)| = |x - ((-m : Int) : Rat)| := by
    rw [← abs_neg]
    congr 1
    push_cast
    ring
  refine ⟨h.fits.neg, ?_, ?_⟩
  · intro m hm
    rw [hmirror, hmirror, neg_neg]
    exact h.nearest _ hm.neg
  · intro m hm htie
    rw [hmirror, hmirror, neg_neg] at htie
    rcases h.even _ hm.neg htie with rfl | ⟨half, hhalf, rfl⟩
    · exact .inl (neg_neg m)
    · exact .inr ⟨-half, hhalf.neg, by ring⟩

theorem Rounds.of_fits (h : Fits 53 n) : Rounds n n where
  fits := h
  nearest m _ := by simp
  even m _ htie := by
    rw [sub_self, abs_zero, eq_comm, abs_eq_zero, sub_eq_zero] at htie
    exact .inl (by exact_mod_cast htie)

/-- Of two numbers the greater one is no further away exactly from the middle on. -/
theorem abs_sub_greater_le_iff {u v : Rat} (h : u < v) : |x - v| ≤ |x - u| ↔ u + v ≤ 2 * x := by
  rw [← sq_le_sq]
  constructor <;> intro hle <;> nlinarith

theorem abs_sub_lesser_le_iff {u v : Rat} (h : u < v) : |x - u| ≤ |x - v| ↔ 2 * x ≤ u + v := by
  rw [← sq_le_sq]
  constructor <;> intro hle <;> nlinarith

/-- The next number after an even one is odd, and the even ones with a step at least as great come
later. -/
theorem exists_fits_after {u v : Int} {i t : Nat} (hu : |u| < 2 ^ 52)
    (h : 2 * (u * 2 ^ i) < 2 * (v * 2 ^ (i + t))) :
    ∃ m, Fits 53 m ∧ 2 * (u * 2 ^ i) < m ∧ m < 2 * (v * 2 ^ (i + t)) := by
  have hi : (0 : Int) < 2 ^ i := by positivity
  have hfactor : v * 2 ^ (i + t) = v * 2 ^ t * 2 ^ i := by ring
  rw [hfactor] at h ⊢
  have hlt : u < v * 2 ^ t := by nlinarith
  rw [abs_lt] at hu
  refine ⟨(2 * u + 1) * 2 ^ i, ⟨_, i, abs_lt.2 ⟨by omega, by omega⟩, rfl⟩, ?_, ?_⟩
  · linarith
  · nlinarith

/-- Between two even numbers stands an odd one. -/
theorem exists_fits_between (hp : Fits 52 p) (hq : Fits 52 q) (h : 2 * p < 2 * q) :
    ∃ m, Fits 53 m ∧ 2 * p < m ∧ m < 2 * q := by
  obtain ⟨u, i, hu, rfl⟩ := hp
  obtain ⟨v, k, hv, rfl⟩ := hq
  rcases Nat.le_total i k with hik | hki
  · obtain ⟨t, rfl⟩ := Nat.exists_eq_add_of_le hik
    exact exists_fits_after hu h
  · -- With the smaller step on the other side, the number before that side is meant.
    obtain ⟨t, rfl⟩ := Nat.exists_eq_add_of_le hki
    rw [← abs_neg] at hv
    obtain ⟨m, hm, hlow, hhigh⟩ := exists_fits_after (u := -v) (v := -u) hv (by linarith)
    exact ⟨-m, hm.neg, by linarith, by linarith⟩

/-- If two numbers were equally near and both even, the one between them would be nearer. -/
theorem Rounds.le_of_same (hn : Rounds x n) (hm : Rounds x m) : n ≤ m := by
  by_contra hlt
  rw [not_le] at hlt
  have htie : |x - n| = |x - m| := le_antisymm (hn.nearest m hm.fits) (hm.nearest n hn.fits)
  obtain rfl | ⟨p, hp, rfl⟩ := hn.even m hm.fits htie
  · exact lt_irrefl _ hlt
  obtain hsame | ⟨q, hq, rfl⟩ := hm.even _ hn.fits htie.symm
  · exact hlt.ne hsame
  obtain ⟨c, hc, hqc, hcp⟩ := exists_fits_between hq hp hlt
  have habove := (abs_sub_greater_le_iff (Int.cast_lt.2 hcp)).1 (hn.nearest c hc)
  have hbelow := (abs_sub_lesser_le_iff (Int.cast_lt.2 hqc)).1 (hm.nearest c hc)
  have hlt' : ((2 * q : Int) : Rat) < (2 * p : Int) := Int.cast_lt.2 hlt
  linarith

theorem Rounds.unique (hn : Rounds x n) (hm : Rounds x m) : n = m :=
  le_antisymm (hn.le_of_same hm) (hm.le_of_same hn)

/-- Rounding keeps the order of values. -/
theorem Rounds.le (hn : Rounds x n) (hm : Rounds y m) (h : x ≤ y) : n ≤ m := by
  by_contra hlt
  rw [not_le] at hlt
  have hx := (abs_sub_greater_le_iff (Int.cast_lt.2 hlt)).1 (hn.nearest m hm.fits)
  have hy := (abs_sub_lesser_le_iff (Int.cast_lt.2 hlt)).1 (hm.nearest n hn.fits)
  obtain rfl : x = y := le_antisymm h (by linarith)
  exact hlt.not_ge (hn.le_of_same hm)

/-- A power of two fits although its factor takes one bit more. -/
theorem fits_of_abs_le (hbits : 0 < bits) (h : |m| ≤ 2 ^ bits) : Fits bits (m * 2 ^ j) := by
  rcases h.lt_or_eq with hlt | heq
  · exact ⟨m, j, hlt, rfl⟩
  · have hone : (1 : Int) < 2 ^ bits := one_lt_pow₀ (by norm_num) hbits.ne'
    rcases (abs_eq (by positivity)).1 heq with rfl | rfl
    · exact ⟨1, bits + j, by rwa [abs_one], by ring⟩
    · exact ⟨-1, bits + j, by rwa [abs_neg, abs_one], by ring⟩

/-- Numbers that are not multiples of a step are below the place where that step sets in. -/
theorem Fits.multiple_or_lt (h : Fits 53 n) (j : Nat) :
    (∃ m, n = m * 2 ^ j) ∨ 0 < j ∧ n < 2 ^ (52 + j) := by
  obtain ⟨m, k, hm, rfl⟩ := h
  rcases Nat.lt_or_ge k j with hkj | hjk
  · refine .inr ⟨by omega, ?_⟩
    calc m * 2 ^ k < 2 ^ 53 * 2 ^ k := by
          have hk : (0 : Int) < 2 ^ k := by positivity
          nlinarith [(abs_lt.1 hm).2]
      _ = 2 ^ (53 + k) := by ring
      _ ≤ 2 ^ (52 + j) := pow_le_pow_right₀ (by norm_num) (by omega)
  · obtain ⟨t, rfl⟩ := Nat.exists_eq_add_of_le hjk
    exact .inl ⟨m * 2 ^ t, by ring⟩

/-- Two multiples of a step are together at least a step away. -/
theorem step_le_abs_add (x : Rat) (hne : q ≠ p) :
    (2 : Rat) ^ j ≤ |x - q * 2 ^ j| + |x - p * 2 ^ j| := by
  have hone : (1 : Rat) ≤ |(p : Rat) - q| := by
    exact_mod_cast Int.one_le_abs (sub_ne_zero.2 hne.symm)
  have hstep : (0 : Rat) < 2 ^ j := by positivity
  calc (2 : Rat) ^ j ≤ |(p : Rat) - q| * 2 ^ j := le_mul_of_one_le_left hstep.le hone
    _ = |((p : Rat) - q) * 2 ^ j| := by rw [abs_mul, abs_of_pos hstep]
    _ = |(x - q * 2 ^ j) - (x - p * 2 ^ j)| := by
      congr 1
      ring
    _ ≤ |x - q * 2 ^ j| + |x - p * 2 ^ j| := abs_sub _ _

/-- A multiple within half a step is the nearest multiple. -/
theorem abs_sub_multiple_le (hnear : 2 * |x - q * 2 ^ j| ≤ 2 ^ j) (p : Int) :
    |x - q * 2 ^ j| ≤ |x - p * 2 ^ j| := by
  by_cases hne : q = p
  · rw [hne]
  · have hfar := step_le_abs_add (j := j) x hne
    linarith

/-- It is nearer than all below the least number with 53 bits in front of the step, which is a
multiple itself. -/
theorem abs_sub_multiple_lt (hle : 2 ^ (52 + j) ≤ x) (hnear : 2 * |x - q * 2 ^ j| ≤ 2 ^ j)
    (hm : m < 2 ^ (52 + j)) : |x - q * 2 ^ j| < |x - m| := by
  have hcast : (m : Rat) < 2 ^ (52 + j) := by exact_mod_cast hm
  have hleast : |x - q * 2 ^ j| ≤ |x - 2 ^ (52 + j)| := by
    have hmultiple := abs_sub_multiple_le hnear (2 ^ 52)
    rwa [Int.cast_pow, Int.cast_ofNat, ← pow_add] at hmultiple
  calc |x - q * 2 ^ j| ≤ |x - 2 ^ (52 + j)| := hleast
    _ = x - 2 ^ (52 + j) := abs_of_nonneg (sub_nonneg.2 hle)
    _ < x - m := by linarith
    _ ≤ |x - m| := le_abs_self _

theorem abs_le_of_near (hx : 0 ≤ x) (hlt : x < 2 ^ (53 + j))
    (hnear : 2 * |x - q * 2 ^ j| ≤ 2 ^ j) : |q| ≤ 2 ^ 53 := by
  have hstep : (0 : Rat) < 2 ^ j := by positivity
  have hclose := abs_le.1 (show |x - q * 2 ^ j| ≤ 2 ^ j / 2 by linarith)
  rw [pow_add] at hlt
  have hupper : (q : Rat) < (2 ^ 53 + 1 : Int) := by
    push_cast
    nlinarith
  have hlower : ((-1 : Int) : Rat) < q := by
    push_cast
    nlinarith
  rw [Int.cast_lt] at hupper hlower
  exact abs_le.2 ⟨by omega, by omega⟩

/-- The nearest multiple of a step is the nearest number if the step is that of the value. -/
theorem rounds_of_step (hx : 0 ≤ x) (hlt : x < 2 ^ (53 + j)) (hle : 0 < j → 2 ^ (52 + j) ≤ x)
    (hnear : 2 * |x - q * 2 ^ j| ≤ 2 ^ j) (heven : 2 * |x - q * 2 ^ j| = 2 ^ j → Even q) :
    Rounds x (q * 2 ^ j) := by
  have hq := abs_le_of_near hx hlt hnear
  refine ⟨fits_of_abs_le (by norm_num) hq, ?_, ?_⟩
  · intro m hm
    rcases hm.multiple_or_lt j with ⟨p, rfl⟩ | ⟨hj, hm⟩
    · simpa using abs_sub_multiple_le hnear p
    · simpa using (abs_sub_multiple_lt (hle hj) hnear hm).le
  · intro m hm htie
    rcases hm.multiple_or_lt j with ⟨p, rfl⟩ | ⟨hj, hm⟩
    · by_cases hne : q = p
      · exact .inl (by rw [hne])
      · have hfar := step_le_abs_add (j := j) x hne
        push_cast at htie
        obtain ⟨half, hhalf⟩ := heven (by linarith)
        refine .inr ⟨half * 2 ^ j, fits_of_abs_le (by norm_num) ?_, by rw [hhalf]; ring⟩
        rw [abs_le] at hq ⊢
        omega
    · push_cast at htie
      exact ((abs_sub_multiple_lt (hle hj) hnear hm).ne htie).elim

/-- What is below half a unit rounds to nothing. -/
theorem rounds_zero (hx : 0 ≤ x) (h : 2 * x < 1) : Rounds x 0 := by
  have hnear : 2 * |x - (0 : Int) * 2 ^ 0| ≤ 2 ^ 0 := by
    rw [Int.cast_zero, zero_mul, sub_zero, abs_of_nonneg hx, pow_zero]
    exact h.le
  have hrounds : Rounds x (0 * 2 ^ 0) := by
    refine rounds_of_step hx (by norm_num; linarith) (fun hj => (lt_irrefl 0 hj).elim) hnear ?_
    intro _
    exact ⟨0, rfl⟩
  rwa [zero_mul] at hrounds

theorem two_mul_abs_divNearest (a : Nat) (hb : 0 < b) :
    2 * |(a : Int) - divNearest a b * b| ≤ b ∧
      (2 * |(a : Int) - divNearest a b * b| = b → Even (divNearest a b : Int)) := by
  have hsplit : ((a / b : Nat) : Int) * b + (a % b : Nat) = a := by
    exact_mod_cast Nat.div_add_mod' a b
  have hmod : a % b < b := Nat.mod_lt a hb
  rw [Int.even_iff]
  simp only [divNearest]
  split
  · rename_i hup
    have hdistance : |(a : Int) - (a / b + 1 : Nat) * b| = b - (a % b : Nat) := by
      rw [abs_of_nonpos] <;> push_cast at * <;> linarith
    rw [hdistance]
    omega
  · rename_i hdown
    have hdistance : |(a : Int) - (a / b : Nat) * b| = (a % b : Nat) := by
      rw [abs_of_nonneg] <;> omega
    rw [hdistance]
    omega

theorem lt_two_pow_log2 (n : Nat) : n < 2 ^ (53 + (n.log2 - 52)) :=
  Nat.lt_log2_self.trans_le (Nat.pow_le_pow_right (by norm_num) (by omega))

theorem two_pow_log2_le {n : Nat} (h : 0 < n.log2 - 52) : 2 ^ (52 + (n.log2 - 52)) ≤ n := by
  have hn : n ≠ 0 := by
    rintro rfl
    simp at h
  exact (Nat.pow_le_pow_right (by norm_num) (by omega)).trans (Nat.log2_self_le hn)

/-- Distances to a quotient, with the divisor on the other side. -/
theorem abs_div_sub (a : Nat) (hb : 0 < b) (q : Int) :
    |(a : Rat) / b - q * 2 ^ j| = (|(a : Int) - q * (b * 2 ^ j : Nat)| : Int) / b := by
  have hpos : (0 : Rat) < b := by exact_mod_cast hb
  have hsame : (a : Rat) / b - q * 2 ^ j = (a - q * (b * 2 ^ j)) / b := by
    field_simp
  rw [hsame, abs_div, abs_of_pos hpos]
  push_cast
  rfl

/-- A quotient is rounded to the nearest number, and beyond infinity to infinity. -/
theorem roundUnits_rounds (a : Nat) (hb : 0 < b) :
    ∃ n : Nat, Rounds ((a : Rat) / b) n ∧ roundUnits a b = min n infinity := by
  set j := (a / b).log2 - 52 with hj
  refine ⟨divNearest a (b * 2 ^ j) * 2 ^ j, ?_, rfl⟩
  have hpos : (0 : Rat) < b := by exact_mod_cast hb
  obtain ⟨hnear, heven⟩ := two_mul_abs_divNearest a (b := b * 2 ^ j) (by positivity)
  rw [Nat.cast_mul, Nat.cast_pow, Nat.cast_ofNat]
  refine rounds_of_step (div_nonneg (Nat.cast_nonneg a) hpos.le) ?_ ?_ ?_ ?_
  · rw [div_lt_iff₀ hpos]
    exact_mod_cast (Nat.div_lt_iff_lt_mul hb).1 (lt_two_pow_log2 (a / b))
  · intro hlog
    rw [le_div_iff₀ hpos]
    exact_mod_cast (Nat.le_div_iff_mul_le hb).1 (two_pow_log2_le hlog)
  · rw [abs_div_sub a hb, mul_div_assoc', div_le_iff₀ hpos, mul_comm ((2 : Rat) ^ j)]
    exact_mod_cast hnear
  · rw [abs_div_sub a hb, mul_div_assoc', div_eq_iff hpos.ne', mul_comm ((2 : Rat) ^ j)]
    intro htie
    exact heven (by exact_mod_cast htie)

-- The exponents below are variables because they are too great for a tactic to try out.
theorem exists_one_eq : ∃ k : Nat, k = 1074 ∧ one = 2 ^ k := by
  obtain ⟨k, hk⟩ : ∃ k, k = 1074 := ⟨_, rfl⟩
  refine ⟨k, hk, ?_⟩
  unfold one
  rw [← hk, Nat.pow_eq]

theorem one_pos : 0 < one := by
  obtain ⟨k, _, hone⟩ := exists_one_eq
  rw [hone]
  exact Nat.two_pow_pos k

theorem fits_mul_one (h : |n| ≤ 2 ^ 53) : Fits 53 (n * one) := by
  obtain ⟨k, _, hone⟩ := exists_one_eq
  rw [hone, Nat.cast_pow, Nat.cast_ofNat]
  exact fits_of_abs_le (by norm_num) h

/-- An integer of up to 53 bits rounds to itself. -/
theorem Rounds.eq_mul_one (hx : Rounds ((m : Rat) * one) n) (h : |m| ≤ 2 ^ 53) : n = m * one := by
  refine hx.unique ?_
  have hself := Rounds.of_fits (fits_mul_one h)
  rwa [Int.cast_mul, Int.cast_natCast] at hself

theorem exists_infinity_eq : ∃ k : Nat, k = 1024 ∧ infinity = 2 ^ k * one := by
  obtain ⟨k, hk⟩ : ∃ k, k = 1024 := ⟨_, rfl⟩
  refine ⟨k, hk, ?_⟩
  rw [infinity, ← hk, Nat.pow_eq]

theorem clamp_mul_one (h : |n| ≤ 2 ^ 53) : clamp (n * one) = n * one := by
  obtain ⟨k, hk, hinfinity⟩ := exists_infinity_eq
  have hpower : 2 ^ 53 * one ≤ infinity := by
    rw [hinfinity]
    exact Nat.mul_le_mul_right one (Nat.pow_le_pow_right (by norm_num) (by omega))
  have hbound : |n * one| ≤ infinity := by
    rw [abs_mul, Nat.abs_cast]
    calc |n| * (one : Int) ≤ 2 ^ 53 * one := mul_le_mul_of_nonneg_right h (Nat.cast_nonneg one)
      _ ≤ infinity := by exact_mod_cast hpower
  rw [abs_le] at hbound
  rw [clamp, min_eq_left hbound.2, max_eq_right hbound.1]

theorem fits_infinity : Fits 53 infinity := by
  obtain ⟨i, _, hone⟩ := exists_one_eq
  obtain ⟨k, _, hinfinity⟩ := exists_infinity_eq
  refine ⟨1, k + i, by norm_num, ?_⟩
  rw [hinfinity, hone, ← pow_add, one_mul, Nat.cast_pow, Nat.cast_ofNat]

theorem exists_infinity_le : ∃ k : Nat, k = 309 ∧ infinity ≤ 10 ^ k * one := by
  refine ⟨_, rfl, ?_⟩
  obtain ⟨k, rfl, hinfinity⟩ := exists_infinity_eq
  rw [hinfinity]
  exact Nat.mul_le_mul_right one (by decide +kernel)

theorem exists_two_mul_one_lt : ∃ k : Nat, k = 324 ∧ 2 * one < 10 ^ k := by
  refine ⟨_, rfl, ?_⟩
  obtain ⟨k, rfl, hone⟩ := exists_one_eq
  rw [hone]
  decide +kernel

theorem quotient_pos (d : Decimal) : 0 < (quotient d).2 := Nat.pow_pos (by norm_num)

theorem quotient_div (d : Decimal) :
    ((quotient d).1 : Rat) / (quotient d).2 = d.toRat * one := by
  have hexponent : d.exponent = d.exponent.toNat - (-d.exponent).toNat := by omega
  have hpower : (10 : Rat) ^ d.exponent = 10 ^ d.exponent.toNat / 10 ^ (-d.exponent).toNat := by
    conv_lhs => rw [hexponent]
    rw [zpow_sub₀ (by norm_num), zpow_natCast, zpow_natCast]
  rw [Decimal.toRat, hpower]
  simp only [quotient, Nat.pow_eq]
  push_cast
  ring

/-- The size of the digits bounds them. -/
theorem digits_bounds {d : Nat} (hd : d ≠ 0) :
    10 ^ ((Nat.toDigits 10 d).length - 1) ≤ d ∧ d < 10 ^ (Nat.toDigits 10 d).length := by
  have hsize : 0 < (Nat.toDigits 10 d).length := Nat.length_toDigits_pos
  refine ⟨?_, (Nat.length_toDigits_le_iff (by norm_num) hsize).1 le_rfl⟩
  rcases Nat.eq_zero_or_pos ((Nat.toDigits 10 d).length - 1) with hzero | hpos
  · rw [hzero, pow_zero]
    omega
  · by_contra hlt
    have hle := (Nat.length_toDigits_le_iff (by norm_num) hpos).2 (not_le.1 hlt)
    omega

/-- A decimal with so many digits before the point is at least a power of ten. -/
theorem le_toRat {d : Decimal} {e : Int} (hd : d.digits ≠ 0)
    (h : e < (Nat.toDigits 10 d.digits).length + d.exponent) : 10 ^ e ≤ d.toRat := by
  obtain ⟨hle, _⟩ := digits_bounds hd
  have hsize : 0 < (Nat.toDigits 10 d.digits).length := Nat.length_toDigits_pos
  have hpower : (0 : Rat) < 10 ^ d.exponent := zpow_pos (by norm_num) _
  have hcast : (10 : Rat) ^ (((Nat.toDigits 10 d.digits).length - 1 : Nat) : Int) ≤ d.digits := by
    rw [zpow_natCast]
    exact_mod_cast hle
  calc (10 : Rat) ^ e
      ≤ 10 ^ ((((Nat.toDigits 10 d.digits).length - 1 : Nat) : Int) + d.exponent) :=
        zpow_le_zpow_right₀ (by norm_num) (by omega)
    _ ≤ d.toRat := by
      rw [zpow_add₀ (by norm_num), Decimal.toRat]
      exact mul_le_mul_of_nonneg_right hcast hpower.le

theorem toRat_lt {d : Decimal} {e : Int} (hd : d.digits ≠ 0)
    (h : (Nat.toDigits 10 d.digits).length + d.exponent ≤ e) : d.toRat < 10 ^ e := by
  obtain ⟨_, hlt⟩ := digits_bounds hd
  have hpower : (0 : Rat) < 10 ^ d.exponent := zpow_pos (by norm_num) _
  have hcast : (d.digits : Rat) < 10 ^ ((Nat.toDigits 10 d.digits).length : Int) := by
    rw [zpow_natCast]
    exact_mod_cast hlt
  calc d.toRat < 10 ^ (((Nat.toDigits 10 d.digits).length : Int) + d.exponent) := by
        rw [zpow_add₀ (by norm_num), Decimal.toRat]
        exact mul_lt_mul_of_pos_right hcast hpower
    _ ≤ 10 ^ e := zpow_le_zpow_right₀ (by norm_num) h

theorem infinity_le_of_rounds {d : Decimal} {n : Nat} (hd : d.digits ≠ 0)
    (h : 309 < (Nat.toDigits 10 d.digits).length + d.exponent) (hn : Rounds (d.toRat * one) n) :
    infinity ≤ n := by
  obtain ⟨k, hk, hle⟩ := exists_infinity_le
  have hvalue : ((infinity : Int) : Rat) ≤ d.toRat * one := by
    calc ((infinity : Int) : Rat) ≤ 10 ^ (k : Int) * one := by
          rw [zpow_natCast]
          exact_mod_cast hle
      _ ≤ d.toRat * one := mul_le_mul_of_nonneg_right (le_toRat hd (by omega)) (Nat.cast_nonneg _)
  exact_mod_cast (Rounds.of_fits fits_infinity).le hn hvalue

theorem rounds_zero_of_size {d : Decimal} (hd : d.digits ≠ 0)
    (h : (Nat.toDigits 10 d.digits).length + d.exponent ≤ -324) : Rounds (d.toRat * one) 0 := by
  obtain ⟨k, hk, hlt⟩ := exists_two_mul_one_lt
  have hone : (0 : Rat) < one := by exact_mod_cast one_pos
  refine rounds_zero (mul_nonneg d.toRat_nonneg hone.le) ?_
  calc 2 * (d.toRat * one) = d.toRat * (2 * one) := by ring
    _ ≤ 10 ^ (-(k : Int)) * (2 * one) :=
      mul_le_mul_of_nonneg_right (toRat_lt hd (by omega)).le (mul_nonneg (by norm_num) hone.le)
    _ < 10 ^ (-(k : Int)) * 10 ^ k :=
      mul_lt_mul_of_pos_left (by exact_mod_cast hlt) (zpow_pos (by norm_num) _)
    _ = 1 := by rw [← zpow_natCast, ← zpow_add₀ (by norm_num), neg_add_cancel, zpow_zero]

/-- A decimal is rounded to the number nearest to its value, whether or not its size decides. -/
theorem ofDecimal_rounds (d : Decimal) :
    ∃ n : Nat, Rounds (d.toRat * one) n ∧ ofDecimal d = min n infinity := by
  obtain ⟨n, hn, hround⟩ := roundUnits_rounds (quotient d).1 (quotient_pos d)
  rw [quotient_div] at hn
  simp only [ofDecimal]
  split
  · rename_i hzero
    refine ⟨0, ?_, (Nat.zero_min _).symm⟩
    rw [Decimal.toRat, hzero, Nat.cast_zero, zero_mul, zero_mul]
    exact rounds_zero le_rfl (by norm_num)
  · rename_i hd
    split
    · rename_i hgreat
      exact ⟨n, hn, (Nat.min_eq_right (infinity_le_of_rounds hd hgreat hn)).symm⟩
    · split
      · rename_i hsmall
        exact ⟨0, rounds_zero_of_size hd hsmall, (Nat.zero_min _).symm⟩
      · exact ⟨n, hn, hround⟩

end Binary64

end LineScript.Number
