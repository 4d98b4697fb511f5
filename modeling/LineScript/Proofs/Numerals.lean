import LineScript.Operator
import LineScript.Proofs.Reading

/-!
Numbers and their numerals. Main statement: a change of radix reads exactly the numerals of numbers
below the bound and writes the one numeral without leading zeros, so that it does not matter by way
of which radix a number goes.
-/

namespace LineScript

namespace Numeral

variable {radix n d : Nat} {c : Char} {s digits mark : Text}

def upperDigits : Text := "0123456789ABCDEF".toList

def lowerDigits : Text := "0123456789abcdef".toList

/-- The character is the digit that is worth so much, in upper or in lower case. -/
def IsDigitOf (c : Char) (d : Nat) : Prop := upperDigits[d]? = some c ∨ lowerDigits[d]? = some c

/-- The digits stand for the number in the radix; with one more digit behind them, each of them
counts so many times more. -/
inductive Denotes (radix : Nat) : Text → Nat → Prop
  | nil : Denotes radix [] 0
  | append {digits : Text} {c : Char} {n d : Nat} : Denotes radix digits n → IsDigitOf c d →
      d < radix → Denotes radix (digits ++ [c]) (radix * n + d)

/-- What may stand before a numeral to show its radix. -/
def IsMark (radix : Nat) (mark : Text) : Prop :=
  radix = 16 ∧ (mark = "0x".toList ∨ mark = "0X".toList) ∨ radix = 2 ∧ mark = "0b".toList

/-- The text, apart from blanks around it and a mark of the radix before it, is a numeral of the
number; it may begin with any number of zeros. -/
def Writes (radix : Nat) (s : Text) (n : Nat) : Prop :=
  n < Nat.pow 2 64 ∧ ∃ mark digits, Text.trim s = mark ++ digits ∧
    (mark = [] ∨ IsMark radix mark) ∧ digits ≠ [] ∧ Denotes radix digits n

/-- The one numeral of the number: it has no needless zero before it, and letters are in upper
case. -/
structure IsNumeral (radix n : Nat) (s : Text) : Prop where
  nonempty : s ≠ []
  denotes : Denotes radix s n
  upper : ∀ c ∈ s, c ∈ upperDigits
  unpadded : s.head? = some '0' → s = ['0']

theorem lt_of_isDigitOf (h : IsDigitOf c d) : d < 16 := by
  rcases h with h | h
  · exact (List.getElem?_eq_some_iff.1 h).1
  · exact (List.getElem?_eq_some_iff.1 h).1

theorem worth?_of_isDigitOf (h : IsDigitOf c d) : worth? c = some d := by
  have hupper : ∀ d < 16, upperDigits[d]?.bind worth? = some d := by decide
  have hlower : ∀ d < 16, lowerDigits[d]?.bind worth? = some d := by decide
  have hd := lt_of_isDigitOf h
  rcases h with h | h
  · simpa [h] using hupper d hd
  · simpa [h] using hlower d hd

/-- A digit in upper case stands at its worth in the row of them. -/
theorem getElem?_of_isDigitOf (h : IsDigitOf c d) (hc : c ∈ upperDigits) :
    upperDigits[d]? = some c := by
  obtain ⟨place, hplace⟩ := List.mem_iff_getElem?.1 hc
  have hworth : worth? c = some place := worth?_of_isDigitOf (.inl hplace)
  rw [worth?_of_isDigitOf h] at hworth
  cases hworth
  exact hplace

theorem isBlank_of_isDigitOf (h : IsDigitOf c d) : isBlank c = false := by
  have hall : (upperDigits ++ lowerDigits).any isBlank = false := by decide
  have hmem : c ∈ upperDigits ++ lowerDigits :=
    List.mem_append.2 (h.imp List.mem_of_getElem? List.mem_of_getElem?)
  exact eq_false_of_ne_true (List.any_eq_false.1 hall c hmem)

/-- A row that has every code between two characters has every character between them. -/
theorem mem_of_between {first last : Char} {row : Text}
    (hrow : ∀ k ∈ List.range' first.toNat (last.toNat + 1 - first.toNat), Char.ofNat k ∈ row)
    (h : first ≤ c ∧ c ≤ last) : c ∈ row := by
  have hfirst : first.toNat ≤ c.toNat := UInt32.le_iff_toNat_le.1 h.1
  have hlast : c.toNat ≤ last.toNat := UInt32.le_iff_toNat_le.1 h.2
  have hcode := hrow c.toNat (List.mem_range'_1.2 ⟨hfirst, by omega⟩)
  rwa [Char.ofNat_toNat] at hcode

theorem mem_digits_of_worth? (h : worth? c = some d) : c ∈ upperDigits ∨ c ∈ lowerDigits := by
  unfold worth? at h
  split at h
  · rename_i hrange
    exact .inl (mem_of_between (by decide) hrange)
  · split at h
    · rename_i hrange
      exact .inl (mem_of_between (by decide) hrange)
    · split at h
      · rename_i hrange
        exact .inr (mem_of_between (by decide) hrange)
      · cases h

theorem isDigitOf_of_worth? (h : worth? c = some d) : IsDigitOf c d := by
  have hplace (place : Nat) (hdigit : IsDigitOf c place) : IsDigitOf c d := by
    rw [worth?_of_isDigitOf hdigit] at h
    cases h
    exact hdigit
  rcases mem_digits_of_worth? h with hmem | hmem
  · obtain ⟨place, hget⟩ := List.mem_iff_getElem?.1 hmem
    exact hplace place (.inl hget)
  · obtain ⟨place, hget⟩ := List.mem_iff_getElem?.1 hmem
    exact hplace place (.inr hget)

theorem digit?_eq_some : digit? radix c = some d ↔ IsDigitOf c d ∧ d < radix := by
  rw [digit?, Option.filter_eq_some_iff, decide_eq_true_eq]
  constructor
  · rintro ⟨hworth, hlt⟩
    exact ⟨isDigitOf_of_worth? hworth, hlt⟩
  · rintro ⟨hdigit, hlt⟩
    exact ⟨worth?_of_isDigitOf hdigit, hlt⟩

theorem value_append (radix : Nat) (digits : Text) (c : Char) :
    value radix (digits ++ [c]) = radix * value radix digits + (digit? radix c).getD 0 := by
  simp [value]

/-- Rows of digits denote numbers, one each, and nothing else does. -/
theorem denotes_iff :
    Denotes radix s n ↔ s.all (isDigit radix) = true ∧ value radix s = n := by
  constructor
  · intro h
    induction h with
    | nil => exact ⟨rfl, rfl⟩
    | append _ hdigit hlt ih =>
      obtain ⟨hall, hvalue⟩ := ih
      have hd := digit?_eq_some.2 ⟨hdigit, hlt⟩
      refine ⟨?_, ?_⟩
      · simp [hall, isDigit, hd]
      · rw [value_append, hvalue, hd, Option.getD_some]
  · rintro ⟨hall, rfl⟩
    induction s using List.reverseRecOn with
    | nil => exact .nil
    | append_singleton digits c ih =>
      rw [List.all_append, Bool.and_eq_true] at hall
      obtain ⟨hdigits, hlast⟩ := hall
      obtain ⟨d, hd⟩ := Option.isSome_iff_exists.1 (by simpa [isDigit] using hlast)
      obtain ⟨hdigit, hlt⟩ := digit?_eq_some.1 hd
      rw [value_append, hd, Option.getD_some]
      exact .append (ih hdigits) hdigit hlt

theorem denotes_singleton : Denotes radix [c] n ↔ IsDigitOf c n ∧ n < radix := by
  rw [← digit?_eq_some, denotes_iff]
  cases hd : digit? radix c <;> simp [value, Numeral.isDigit, hd]

theorem read?_eq_some : read? radix s = some n ↔ s ≠ [] ∧ Denotes radix s n := by
  rw [denotes_iff, read?]
  split
  · rename_i h
    simp [h]
  · rename_i h
    simp only [reduceCtorEq, false_iff]
    rintro ⟨hne, hall, _⟩
    exact h ⟨hne, hall⟩

theorem Denotes.isDigit (h : Denotes radix s n) (hc : c ∈ s) : isDigit radix c = true :=
  List.all_eq_true.1 (denotes_iff.1 h).1 c hc

theorem Denotes.trim_eq (h : Denotes radix s n) : Text.trim s = s := by
  refine Text.trim_of_no_blank ?_
  intro c hc
  obtain ⟨d, hd⟩ := Option.isSome_iff_exists.1 (h.isDigit hc)
  exact isBlank_of_isDigitOf (digit?_eq_some.1 hd).1

theorem mem_marks_iff : mark ∈ marks radix ↔ IsMark radix mark := by
  unfold marks
  split
  · simp [IsMark]
  · simp [IsMark]
  · simp_all [IsMark]

/-- A mark takes two characters, one of which is no digit. -/
theorem IsMark.not_digits (h : IsMark radix mark) :
    mark.length = 2 ∧ ∃ c ∈ mark, Numeral.isDigit radix c = false := by
  rcases h with ⟨rfl, rfl | rfl⟩ | ⟨rfl, rfl⟩
  · exact ⟨rfl, 'x', by decide, by decide⟩
  · exact ⟨rfl, 'X', by decide, by decide⟩
  · exact ⟨rfl, 'b', by decide, by decide⟩

theorem unmark_cases (radix : Nat) (s : Text) :
    (unmark radix s = s ∧ ∀ mark, IsMark radix mark → ¬ mark <+: s) ∨
      ∃ mark, IsMark radix mark ∧ s = mark ++ unmark radix s := by
  unfold unmark
  cases h : (marks radix).findSome? (Text.after? · s) with
  | none =>
    refine .inl ⟨rfl, ?_⟩
    rintro mark hmark ⟨rest, hrest⟩
    have hafter := List.findSome?_eq_none_iff.1 h mark (mem_marks_iff.2 hmark)
    rw [Text.after?_eq_some.2 hrest.symm] at hafter
    cases hafter
  | some rest =>
    obtain ⟨mark, hmark, hafter⟩ := List.exists_of_findSome?_eq_some h
    exact .inr ⟨mark, mem_marks_iff.1 hmark, Text.after?_eq_some.1 hafter⟩

theorem unmark_of_denotes (h : Denotes radix digits n) : unmark radix digits = digits := by
  rcases unmark_cases radix digits with ⟨hsame, _⟩ | ⟨mark, hmark, hdigits⟩
  · exact hsame
  · obtain ⟨_, c, hc, hno⟩ := hmark.not_digits
    have hmem : c ∈ digits := by
      rw [hdigits]
      exact List.mem_append_left _ hc
    rw [h.isDigit hmem] at hno
    cases hno

/-- No two marks of a radix stand before the same text, as they are equally long. -/
theorem unmark_append (hmark : IsMark radix mark) : unmark radix (mark ++ digits) = digits := by
  rcases unmark_cases radix (mark ++ digits) with ⟨_, hno⟩ | ⟨mark', hmark', happend⟩
  · exact (hno mark hmark (List.prefix_append mark digits)).elim
  · have hlength : mark.length = mark'.length :=
      hmark.not_digits.1.trans hmark'.not_digits.1.symm
    exact (List.append_inj happend hlength).2.symm

theorem parse?_eq_some : parse? radix s = some n ↔ Writes radix s n := by
  rw [parse?, Option.filter_eq_some_iff, decide_eq_true_eq, read?_eq_some]
  constructor
  · rintro ⟨⟨hne, hdenotes⟩, hlt⟩
    refine ⟨hlt, ?_⟩
    rcases unmark_cases radix (Text.trim s) with ⟨hsame, _⟩ | ⟨mark, hmark, htrim⟩
    · exact ⟨[], _, hsame.symm, .inl rfl, hne, hdenotes⟩
    · exact ⟨mark, _, htrim, .inr hmark, hne, hdenotes⟩
  · rintro ⟨hlt, mark, digits, htrim, hmark, hne, hdenotes⟩
    have hunmark : unmark radix (Text.trim s) = digits := by
      rw [htrim]
      rcases hmark with rfl | hmark
      · exact unmark_of_denotes hdenotes
      · exact unmark_append hmark
    rw [hunmark]
    exact ⟨⟨hne, hdenotes⟩, hlt⟩

theorem not_mem_of_digits (h : s.all (isDigit radix) = true) (hc : worth? c = none) : c ∉ s := by
  intro hmem
  have hdigit := List.all_eq_true.1 h c hmem
  simp [isDigit, digit?, hc] at hdigit

/-- With nothing but digits in it, a text writes the number that it denotes. -/
theorem writes_iff_denotes (h : s.all (isDigit radix) = true) (hne : s ≠ []) :
    Writes radix s n ↔ Denotes radix s n ∧ n < Nat.pow 2 64 := by
  have hdenotes : Denotes radix s (value radix s) := denotes_iff.2 ⟨h, rfl⟩
  constructor
  · rintro ⟨hlt, mark, digits, htrim, hmark, _, hdigits⟩
    rw [hdenotes.trim_eq] at htrim
    rcases hmark with rfl | hmark
    · rw [htrim]
      exact ⟨hdigits, hlt⟩
    · obtain ⟨_, c, hc, hno⟩ := hmark.not_digits
      rw [List.all_eq_true.1 h c (htrim ▸ List.mem_append_left _ hc)] at hno
      cases hno
  · rintro ⟨hs, hlt⟩
    exact ⟨hlt, [], s, hs.trim_eq, .inl rfl, hne, hs⟩

theorem digitChar_upper (h : d < 16) : upperDigits[d]? = some (Nat.digitChar d).toUpper := by
  have hall : ∀ d < 16, upperDigits[d]? = some (Nat.digitChar d).toUpper := by decide
  exact hall d h

theorem write_of_lt (h : n < radix) : write radix n = [(Nat.digitChar n).toUpper] := by
  rw [write, Nat.toDigits_of_lt_base h, List.map_singleton]

theorem write_append (hradix : 1 < radix) (hn : 0 < n) (hd : d < radix) :
    write radix (radix * n + d) = write radix n ++ [(Nat.digitChar d).toUpper] := by
  rw [← write_of_lt hd, write, ← Nat.toDigits_append_toDigits hradix hn hd, List.map_append]
  rfl

theorem isNumeral_singleton (hd : d < radix) (hc : upperDigits[d]? = some c) :
    IsNumeral radix d [c] where
  nonempty := by simp
  denotes := denotes_singleton.2 ⟨.inl hc, hd⟩
  upper := by
    intro x hx
    rw [List.mem_singleton.1 hx]
    exact List.mem_of_getElem? hc
  unpadded := by
    intro hhead
    cases hhead
    rfl

theorem isNumeral_append (hn : 0 < n) (h : IsNumeral radix n s) (hd : d < radix)
    (hc : upperDigits[d]? = some c) : IsNumeral radix (radix * n + d) (s ++ [c]) where
  nonempty := by simp
  denotes := .append h.denotes (.inl hc) hd
  upper := by
    intro x hx
    rcases List.mem_append.1 hx with hx | hx
    · exact h.upper x hx
    · rw [List.mem_singleton.1 hx]
      exact List.mem_of_getElem? hc
  unpadded := by
    -- A zero at the front would be all of the numeral before the last digit, which is not zero.
    intro hhead
    rw [List.head?_append_of_ne_nil s h.nonempty] at hhead
    have hzero := h.denotes
    rw [h.unpadded hhead] at hzero
    have hworth := worth?_of_isDigitOf (denotes_singleton.1 hzero).1
    cases hworth
    exact (Nat.lt_irrefl 0 hn).elim

theorem isNumeral_write (hradix : 1 < radix) (hle : radix ≤ 16) (n : Nat) :
    IsNumeral radix n (write radix n) := by
  induction n using Nat.strongRecOn with
  | ind n ih =>
    by_cases hn : n < radix
    · rw [write_of_lt hn]
      exact isNumeral_singleton hn (digitChar_upper (by omega))
    · have hpos : 0 < n / radix := Nat.div_pos (by omega) (by omega)
      have hmod : n % radix < radix := Nat.mod_lt n (by omega)
      have hsplit : radix * (n / radix) + n % radix = n := Nat.div_add_mod n radix
      have hfront := ih (n / radix) (Nat.div_lt_self (by omega) hradix)
      have hnumeral := isNumeral_append hpos hfront hmod (digitChar_upper (by omega))
      rwa [← write_append hradix hpos hmod, hsplit] at hnumeral

/-- A number has no numeral but the one that is written. -/
theorem IsNumeral.eq_write (hradix : 1 < radix) (h : IsNumeral radix n s) : s = write radix n := by
  obtain ⟨hne, hdenotes, hupper, hunpadded⟩ := h
  induction hdenotes with
  | nil => exact (hne rfl).elim
  | @append digits c n d hdigits hc hd ih =>
    have hlast : c = (Nat.digitChar d).toUpper := by
      have hget := getElem?_of_isDigitOf hc (hupper c (by simp))
      rw [digitChar_upper (lt_of_isDigitOf hc)] at hget
      exact (Option.some.inj hget).symm
    by_cases hempty : digits = []
    · subst hempty
      have hzero : 0 = n := (denotes_iff.1 hdigits).2
      rw [← hzero, Nat.mul_zero, Nat.zero_add, write_of_lt hd, hlast, List.nil_append]
    · have hhead : digits.head? ≠ some '0' := by
        intro hzero
        have hwhole := hunpadded (by rwa [List.head?_append_of_ne_nil _ hempty])
        have hlength := congrArg List.length hwhole
        simp [hempty] at hlength
      have hfront := ih hempty (fun x hx => hupper x (List.mem_append_left _ hx))
        (fun hzero => (hhead hzero).elim)
      have hpos : 0 < n := by
        by_contra hzero
        have hn : n = 0 := by omega
        rw [hn, write, Nat.toDigits_zero] at hfront
        exact hhead (by rw [hfront]; rfl)
      rw [write_append hradix hpos hd, ← hfront, hlast]

theorem isNumeral_iff (hradix : 1 < radix) (hle : radix ≤ 16) :
    IsNumeral radix n s ↔ s = write radix n := by
  constructor
  · exact IsNumeral.eq_write hradix
  · rintro rfl
    exact isNumeral_write hradix hle n

/-- What is written is read back, with no mistake about marks or blanks. -/
theorem parse?_write (hradix : 1 < radix) (hle : radix ≤ 16) (hn : n < bound) :
    parse? radix (write radix n) = some n := by
  obtain ⟨hne, hdenotes, _, _⟩ := isNumeral_write hradix hle n
  exact parse?_eq_some.2 ⟨hn, [], _, hdenotes.trim_eq, .inl rfl, hne, hdenotes⟩

theorem convert_of_some {source : Nat} (target : Nat) (h : parse? source s = some n) :
    convert source target s = write target n := by
  rw [convert, h]
  rfl

theorem convert_of_none {source : Nat} (target : Nat) (h : parse? source s = none) :
    convert source target s = [] := by
  rw [convert, h]
  rfl

theorem parse?_nil (radix : Nat) : parse? radix [] = none := by
  cases h : parse? radix [] with
  | none => rfl
  | some n =>
    obtain ⟨_, mark, digits, htrim, _, hne, _⟩ := parse?_eq_some.1 h
    exact (hne (List.append_eq_nil_iff.1 htrim.symm).2).elim

/-- A number goes by way of another radix unchanged, and so does what is no number. -/
theorem convert_convert {source middle : Nat} (target : Nat) (hradix : 1 < middle)
    (hle : middle ≤ 16) (s : Text) :
    convert middle target (convert source middle s) = convert source target s := by
  cases h : parse? source s with
  | none =>
    rw [convert_of_none middle h, convert_of_none target h,
      convert_of_none target (parse?_nil middle)]
  | some n =>
    have hn : n < bound := (parse?_eq_some.1 h).1
    rw [convert_of_some middle h, convert_of_some target h,
      convert_of_some target (parse?_write hradix hle hn)]

theorem convert_eq_nil_iff {source target : Nat} (hradix : 1 < target) (hle : target ≤ 16) :
    convert source target s = [] ↔ parse? source s = none := by
  cases h : parse? source s with
  | none => simp [convert_of_none target h]
  | some n => simp [convert_of_some target h, (isNumeral_write hradix hle n).nonempty]

end Numeral

/-- The radix that an operator reads and the one that it writes, if it is a change of radix. -/
def Operator.radices? : Operator → Option (Nat × Nat)
  | decimalToBinary => some (10, 2)
  | decimalToHex => some (10, 16)
  | hexToDecimal => some (16, 10)
  | hexToBinary => some (16, 2)
  | binaryToDecimal => some (2, 10)
  | binaryToHex => some (2, 16)
  | _ => none

theorem Operator.apply_of_radices? {op : Operator} {source target : Nat}
    (h : op.radices? = some (source, target)) :
    op.apply = Numeral.convert source target ∧ 1 < source ∧ source ≤ 16 ∧ 1 < target ∧
      target ≤ 16 := by
  cases op <;> cases h <;> exact ⟨rfl, by decide, by decide, by decide, by decide⟩

/-- Changes of radix are exact. A text is read as a number exactly if it writes one; the result is
the one numeral of that number, or empty if there is none. A way over a third radix leads to the
same result, and the way back to the numeral of the number in the first radix. -/
theorem radix_changes_are_exact (f g direct back : Operator) (a b c : Nat)
    (hf : f.radices? = some (a, b)) (hg : g.radices? = some (b, c))
    (hdirect : direct.radices? = some (a, c)) (hback : back.radices? = some (b, a)) (s : Text) :
    (∀ n, Numeral.parse? a s = some n ↔ Numeral.Writes a s n) ∧
      (∀ n, Numeral.Writes a s n → ∀ t, Numeral.IsNumeral b n t ↔ t = f.apply s) ∧
      ((¬ ∃ n, Numeral.Writes a s n) → f.apply s = []) ∧
      g.apply (f.apply s) = direct.apply s ∧
      (∀ n, Numeral.Writes a s n → ∀ t, Numeral.IsNumeral a n t ↔ t = back.apply (f.apply s)) ∧
      (back.apply (f.apply s) = [] ↔ f.apply s = []) := by
  obtain ⟨hf, ha, ha', hb, hb'⟩ := Operator.apply_of_radices? hf
  obtain ⟨hg, _⟩ := Operator.apply_of_radices? hg
  obtain ⟨hdirect, _⟩ := Operator.apply_of_radices? hdirect
  obtain ⟨hback, _⟩ := Operator.apply_of_radices? hback
  rw [hf, hg, hdirect, hback, Numeral.convert_convert c hb hb', Numeral.convert_convert a hb hb',
    Numeral.convert_eq_nil_iff hb hb', Numeral.convert_eq_nil_iff ha ha']
  refine ⟨fun n => Numeral.parse?_eq_some, ?_, ?_, rfl, ?_, Iff.rfl⟩
  · intro n hn t
    rw [Numeral.isNumeral_iff hb hb', Numeral.convert_of_some b (Numeral.parse?_eq_some.2 hn)]
  · intro hno
    cases h : Numeral.parse? a s with
    | none => rfl
    | some n => exact (hno ⟨n, Numeral.parse?_eq_some.1 h⟩).elim
  · intro n hn t
    rw [Numeral.isNumeral_iff ha ha', Numeral.convert_of_some a (Numeral.parse?_eq_some.2 hn)]

/-- The greatest number below the bound, with zeros before it and blanks around it. -/
def paddedGreatest : Text := " \t00018446744073709551615 ".toList

theorem paddedGreatest_changes :
    Numeral.Writes 10 paddedGreatest 18446744073709551615 ∧
      Operator.decimalToHex.apply paddedGreatest = "FFFFFFFFFFFFFFFF".toList ∧
      Numeral.IsNumeral 16 18446744073709551615 "FFFFFFFFFFFFFFFF".toList ∧
      Operator.hexToBinary.apply "FFFFFFFFFFFFFFFF".toList
        = Operator.decimalToBinary.apply paddedGreatest ∧
      Numeral.IsNumeral 10 18446744073709551615
        (Operator.hexToDecimal.apply "FFFFFFFFFFFFFFFF".toList) := by
  have hhex : Operator.decimalToHex.apply paddedGreatest = "FFFFFFFFFFFFFFFF".toList := by decide
  obtain ⟨hparse, hnumeral, _, hway, hback, _⟩ := radix_changes_are_exact .decimalToHex .hexToBinary
    .decimalToBinary .hexToDecimal 10 16 2 rfl rfl rfl rfl paddedGreatest
  have hwrites := (hparse 18446744073709551615).1 (by decide)
  rw [hhex] at hnumeral hway hback
  exact ⟨hwrites, hhex, (hnumeral _ hwrites _).2 rfl, hway, (hback _ hwrites _).2 rfl⟩

end LineScript
