import LineScript.Proofs.Numerals

/-!
ASCII text and the digits of its codes. Main statement: text comes back from its digits, and digits
come back from their text up to case and an incomplete last group; what is no row of codes below
128, or no ASCII text, gives nothing.
-/

namespace LineScript

namespace Numeral

variable {radix n d size : Nat} {c : Char} {digits group : Text}

theorem upper_of_isDigitOf (h : IsDigitOf c d) : upperDigits[d]? = some c.toUpper := by
  have hupper : ∀ d < 16, upperDigits[d]?.map Char.toUpper = upperDigits[d]? := by decide
  have hlower : ∀ d < 16, lowerDigits[d]?.map Char.toUpper = upperDigits[d]? := by decide
  have hd := lt_of_isDigitOf h
  rcases h with h | h
  · rw [← hupper d hd, h]
    rfl
  · rw [← hlower d hd, h]
    rfl

theorem toUpper_of_isDigitOf (h : IsDigitOf c d) : c.toUpper = (Nat.digitChar d).toUpper := by
  have hupper := upper_of_isDigitOf h
  rw [digitChar_upper (lt_of_isDigitOf h)] at hupper
  exact (Option.some.inj hupper).symm

theorem Denotes.zeros_append (hradix : 0 < radix) (h : Denotes radix digits n) (count : Nat) :
    Denotes radix (List.replicate count '0' ++ digits) n := by
  induction h with
  | nil =>
    induction count with
    | zero => exact .nil
    | succ count ih =>
      have hzero : Denotes radix (List.replicate count '0' ++ [] ++ ['0']) (radix * 0 + 0) :=
        .append ih (.inl rfl) hradix
      simpa [List.replicate_succ'] using hzero
  | append _ hc hd ih =>
    rw [← List.append_assoc]
    exact .append ih hc hd

end Numeral

namespace Codec.Ascii

open Numeral

variable {radix size n code : Nat} {c : Char} {s d group : Text} {f : Char → Text}

theorem char?_eq_some : char? code = some c ↔ code < 128 ∧ c.toNat = code := by
  unfold char?
  split
  · rename_i hcode
    have hall : ∀ code < 128, (Char.ofNat code).toNat = code := by decide
    constructor
    · rintro ⟨rfl⟩
      exact ⟨hcode, hall code hcode⟩
    · rintro ⟨_, rfl⟩
      rw [Char.ofNat_toNat]
  · rename_i hcode
    simp [hcode]

theorem char?_of_lt (h : code < 128) : char? code = some (Char.ofNat code) := if_pos h

theorem groups_of_lt (h : s.length < size) : groups size s = [] := by
  rw [groups, if_neg (by omega)]

theorem groups_append (hsize : 0 < size) (hgroup : group.length = size) (s : Text) :
    groups size (group ++ s) = group :: groups size s := by
  subst hgroup
  rw [groups, if_pos ⟨hsize, by simp⟩]
  simp

/-- Induction over the complete groups at the front and what is left behind them. -/
theorem groups_induction {P : Text → Prop} (hsize : 0 < size) (hshort : ∀ s, s.length < size → P s)
    (hlong : ∀ group s, group.length = size → P s → P (group ++ s)) (s : Text) : P s := by
  induction s using groups.induct size with
  | case1 s h ih =>
    rw [← List.take_append_drop size s]
    exact hlong _ _ (by simp [h.2]) ih
  | case2 s h => exact hshort s (by omega)

theorem flatten_groups (hsize : 0 < size) (s : Text) :
    (groups size s).flatten = s.take (size * (s.length / size)) := by
  induction s using groups_induction hsize with
  | hshort s h =>
    rw [groups_of_lt h, Nat.div_eq_of_lt h]
    rfl
  | hlong group s h ih =>
    have hcount : (group ++ s).length / size = s.length / size + 1 := by
      rw [List.length_append, h, Nat.add_div_left _ hsize]
    rw [groups_append hsize h, List.flatten_cons, ih, hcount, Nat.mul_succ, Nat.add_comm,
      List.take_add, List.take_left' h, List.drop_left' h]

theorem groups_flatMap (hsize : 0 < size) (hf : ∀ c ∈ s, (f c).length = size) :
    groups size (s.flatMap f) = s.map f := by
  induction s with
  | nil => exact groups_of_lt hsize
  | cons c rest ih =>
    obtain ⟨hc, hrest⟩ := List.forall_mem_cons.1 hf
    rw [List.flatMap_cons, groups_append hsize hc, ih hrest, List.map_cons]

/-- The groups are the pieces of that size that stand at the multiples of it. -/
theorem mem_groups_iff (hsize : 0 < size) :
    group ∈ groups size s ↔ ∃ precedes follows, s = precedes ++ group ++ follows ∧
      size ∣ precedes.length ∧ group.length = size := by
  induction s using groups_induction hsize with
  | hshort s h =>
    rw [groups_of_lt h]
    simp only [List.not_mem_nil, false_iff]
    rintro ⟨precedes, follows, rfl, _, hgroup⟩
    simp only [List.length_append] at h
    omega
  | hlong first s h ih =>
    rw [groups_append hsize h, List.mem_cons, ih]
    constructor
    · rintro (rfl | ⟨precedes, follows, rfl, hplace, hgroup⟩)
      · exact ⟨[], s, rfl, Nat.dvd_zero _, h⟩
      · refine ⟨first ++ precedes, follows, by simp, ?_, hgroup⟩
        rw [List.length_append, h]
        exact (Nat.dvd_add_right (Nat.dvd_refl size)).2 hplace
    · rintro ⟨precedes, follows, hs, hplace, hgroup⟩
      rcases Nat.eq_zero_or_pos precedes.length with hzero | hpos
      · obtain rfl := List.eq_nil_of_length_eq_zero hzero
        exact .inl (List.append_inj_left hs (h.trans hgroup.symm)).symm
      · -- The first group is all of what precedes, or the front of it.
        have hle : first.length ≤ precedes.length := h ▸ Nat.le_of_dvd hpos hplace
        obtain ⟨rest, rfl⟩ : first <+: precedes := by
          refine List.prefix_of_prefix_length_le (List.prefix_append first s) ?_ hle
          exact ⟨group ++ follows, by rw [hs, List.append_assoc]⟩
        refine .inr ⟨rest, follows, ?_, ?_, hgroup⟩
        · simpa using hs
        · rw [List.length_append, h] at hplace
          exact (Nat.dvd_add_right (Nat.dvd_refl size)).1 hplace

theorem padded_append (hradix : 1 < radix) (hsize : 0 < size) {digit : Nat}
    (hdigit : digit < radix) :
    padded radix (size + 1) (radix * n + digit)
      = padded radix size n ++ [(Nat.digitChar digit).toUpper] := by
  rcases Nat.eq_zero_or_pos n with rfl | hn
  · -- The numeral of zero is one of the zeros that are filled in.
    obtain ⟨size, rfl⟩ := Nat.exists_eq_succ_of_ne_zero (Nat.ne_of_gt hsize)
    have hzero : write radix 0 = ['0'] := write_of_lt (by omega)
    simp [padded, write_of_lt hdigit, hzero, ← List.replicate_succ']
  · simp [padded, write_append hradix hn hdigit]

/-- Filled up to its own length, the number of a row of digits is that row in upper case. -/
theorem padded_of_denotes (hradix : 1 < radix) (h : Denotes radix group n) (hne : group ≠ []) :
    padded radix group.length n = Text.asciiUpper group := by
  induction h with
  | nil => exact (hne rfl).elim
  | @append digits c n digit hdigits hc hdigit ih =>
    have hlast := toUpper_of_isDigitOf hc
    by_cases hempty : digits = []
    · subst hempty
      obtain rfl : 0 = n := (denotes_iff.1 hdigits).2
      simp [padded, write_of_lt hdigit, Text.asciiUpper, hlast]
    · have hpos : 0 < digits.length := List.length_pos_iff.2 hempty
      rw [List.length_append, List.length_singleton, padded_append hradix hpos hdigit, ih hempty,
        ← hlast]
      simp [Text.asciiUpper]

theorem length_padded (hradix : 1 < radix) (hsize : 0 < size) (hn : n < Nat.pow radix size) :
    (padded radix size n).length = size := by
  have hle : (write radix n).length ≤ size := by
    rw [write, List.length_map]
    exact (Nat.length_toDigits_le_iff hradix hsize).2 hn
  simp only [padded, List.length_append, List.length_replicate]
  omega

theorem denotes_padded (hradix : 1 < radix) (hle : radix ≤ 16) (size n : Nat) :
    Denotes radix (padded radix size n) n :=
  (isNumeral_write hradix hle n).denotes.zeros_append (by omega) _

/-- Digits of the radix, of which every complete group of that size is a code below 128. -/
structure IsCode (radix size : Nat) (d : Text) : Prop where
  digits : ∀ c ∈ d, ∃ n, IsDigitOf c n ∧ n < radix
  below : ∀ precedes group follows n, d = precedes ++ group ++ follows →
    size ∣ precedes.length → group.length = size → Denotes radix group n → n < 128

theorem isDigit_iff : isDigit radix c = true ↔ ∃ n, IsDigitOf c n ∧ n < radix := by
  rw [isDigit, Option.isSome_iff_exists]
  exact exists_congr fun n => digit?_eq_some

theorem denotes_of_mem_groups (hsize : 0 < size) (hall : d.all (isDigit radix) = true)
    (h : group ∈ groups size d) :
    group.length = size ∧ Denotes radix group (value radix group) := by
  obtain ⟨precedes, follows, rfl, _, hlength⟩ := (mem_groups_iff hsize).1 h
  simp only [List.all_append, Bool.and_eq_true] at hall
  exact ⟨hlength, denotes_iff.2 ⟨hall.1.2, rfl⟩⟩

theorem isCode_iff (hsize : 0 < size) :
    IsCode radix size d ↔
      d.all (isDigit radix) = true ∧ ∀ group ∈ groups size d, value radix group < 128 := by
  have hdigits : (∀ c ∈ d, ∃ n, IsDigitOf c n ∧ n < radix) ↔ d.all (isDigit radix) = true := by
    simp only [List.all_eq_true, isDigit_iff]
  constructor
  · rintro ⟨hall, hbelow⟩
    rw [hdigits] at hall
    refine ⟨hall, ?_⟩
    intro group hgroup
    obtain ⟨precedes, follows, hd, hplace, hlength⟩ := (mem_groups_iff hsize).1 hgroup
    obtain ⟨_, hdenotes⟩ := denotes_of_mem_groups hsize hall hgroup
    exact hbelow precedes group follows _ hd hplace hlength hdenotes
  · rintro ⟨hall, hbelow⟩
    refine ⟨hdigits.2 hall, ?_⟩
    intro precedes group follows n hd hplace hlength hdenotes
    have hmem := (mem_groups_iff hsize).2 ⟨precedes, follows, hd, hplace, hlength⟩
    rw [← (denotes_iff.1 hdenotes).2]
    exact hbelow group hmem

theorem mapM_eq_some {α β : Type} {f : α → Option β} {g : α → β} {l : List α}
    (h : ∀ a ∈ l, f a = some (g a)) : l.mapM f = some (l.map g) := by
  induction l with
  | nil => rfl
  | cons a l ih =>
    obtain ⟨ha, hl⟩ := List.forall_mem_cons.1 h
    simp [List.mapM_cons, ha, ih hl]

theorem mapM_eq_none {α β : Type} {f : α → Option β} {l : List α} {a : α} (ha : a ∈ l)
    (h : f a = none) : l.mapM f = none := by
  induction l with
  | nil => cases ha
  | cons b l ih =>
    rw [List.mapM_cons]
    rcases List.mem_cons.1 ha with rfl | ha
    · simp [h]
    · simp [ih ha]

theorem decode_of_isCode (hsize : 0 < width radix)
    (h : IsCode radix (width radix) (Text.trim s)) :
    decode radix s
      = (groups (width radix) (Text.trim s)).map fun group => Char.ofNat (value radix group) := by
  obtain ⟨hall, hbelow⟩ := (isCode_iff hsize).1 h
  have hread := mapM_eq_some fun group hgroup => char?_of_lt (hbelow group hgroup)
  simp only [decode, hall, if_true, hread, Option.getD_some]

theorem decode_of_not_isCode (hsize : 0 < width radix)
    (h : ¬ IsCode radix (width radix) (Text.trim s)) : decode radix s = [] := by
  unfold decode
  dsimp only
  split
  · rename_i hall
    obtain ⟨group, hgroup, hlarge⟩ :
        ∃ group ∈ groups (width radix) (Text.trim s), 128 ≤ value radix group := by
      by_contra hno
      push Not at hno
      exact h ((isCode_iff hsize).2 ⟨hall, hno⟩)
    have hnone : char? (value radix group) = none := if_neg (by omega)
    rw [mapM_eq_none hgroup hnone]
    rfl
  · rfl

theorem encode_of_ascii (radix : Nat) (h : ∀ c ∈ s, c.toNat < 128) :
    encode radix s = s.flatMap fun c => padded radix (width radix) c.toNat := by
  have hall : s.all isAscii = true := by simpa [isAscii] using h
  rw [encode, if_pos hall]

theorem all_isAscii_eq_false (h : ∃ c ∈ s, 128 ≤ c.toNat) : s.all isAscii = false := by
  obtain ⟨c, hc, hlarge⟩ := h
  refine List.all_eq_false.2 ⟨c, hc, ?_⟩
  simpa [isAscii] using hlarge

/-- A radix for groups: so many of its digits as go to a group suffice for every code. -/
structure Suits (radix : Nat) : Prop where
  two_le : 1 < radix
  le_sixteen : radix ≤ 16
  width_pos : 0 < width radix
  suffices_ascii : 128 ≤ Nat.pow radix (width radix)

theorem suits_two : Suits 2 := ⟨by decide, by decide, by decide, by decide⟩

theorem suits_sixteen : Suits 16 := ⟨by decide, by decide, by decide, by decide⟩

/-- The digits of a character are a group that stands for its code. -/
theorem group_of_char (hradix : Suits radix) (hc : c.toNat < 128) :
    (padded radix (width radix) c.toNat).length = width radix ∧
      (padded radix (width radix) c.toNat).all (isDigit radix) = true ∧
        value radix (padded radix (width radix) c.toNat) = c.toNat := by
  have hlength := length_padded hradix.two_le hradix.width_pos
    (Nat.lt_of_lt_of_le hc hradix.suffices_ascii)
  exact ⟨hlength, denotes_iff.1 (denotes_padded hradix.two_le hradix.le_sixteen _ _)⟩

theorem groups_encode (hradix : Suits radix) (h : ∀ c ∈ s, c.toNat < 128) :
    groups (width radix) (encode radix s)
      = s.map fun c => padded radix (width radix) c.toNat := by
  rw [encode_of_ascii radix h]
  refine groups_flatMap hradix.width_pos ?_
  intro c hc
  exact (group_of_char hradix (h c hc)).1

theorem isCode_encode (hradix : Suits radix) (h : ∀ c ∈ s, c.toNat < 128) :
    IsCode radix (width radix) (encode radix s) := by
  rw [isCode_iff hradix.width_pos, groups_encode hradix h]
  refine ⟨?_, ?_⟩
  · rw [encode_of_ascii radix h, List.all_flatMap]
    refine List.all_eq_true.2 ?_
    intro c hc
    exact (group_of_char hradix (h c hc)).2.1
  · intro group hgroup
    obtain ⟨c, hc, rfl⟩ := List.mem_map.1 hgroup
    rw [(group_of_char hradix (h c hc)).2.2]
    exact h c hc

/-- A row of codes has no blank around it. -/
theorem IsCode.trim_eq (h : IsCode radix size d) : Text.trim d = d := by
  refine Text.trim_of_no_blank ?_
  intro c hc
  obtain ⟨n, hdigit, _⟩ := h.digits c hc
  exact isBlank_of_isDigitOf hdigit

/-- Text comes back from its digits. -/
theorem decode_encode (hradix : Suits radix) (h : ∀ c ∈ s, c.toNat < 128) :
    decode radix (encode radix s) = s := by
  have hcode := isCode_encode hradix h
  have htrim := hcode.trim_eq
  rw [← htrim] at hcode
  rw [decode_of_isCode hradix.width_pos hcode, htrim, groups_encode hradix h, List.map_map]
  refine (List.map_congr_left ?_).trans (List.map_id s)
  intro c hc
  rw [Function.comp_apply, (group_of_char hradix (h c hc)).2.2, Char.ofNat_toNat]
  rfl

/-- The character of a group has the group, in upper case, for its digits. -/
theorem padded_code (hradix : Suits radix) (h : IsCode radix (width radix) d)
    (hgroup : group ∈ groups (width radix) d) :
    (Char.ofNat (value radix group)).toNat < 128 ∧
      padded radix (width radix) (Char.ofNat (value radix group)).toNat
        = Text.asciiUpper group := by
  obtain ⟨hall, hbelow⟩ := (isCode_iff hradix.width_pos).1 h
  obtain ⟨hlength, hdenotes⟩ := denotes_of_mem_groups hradix.width_pos hall hgroup
  have hne : group ≠ [] := List.length_pos_iff.1 (hlength ▸ hradix.width_pos)
  obtain ⟨hlt, hcode⟩ := char?_eq_some.1 (char?_of_lt (hbelow group hgroup))
  rw [hcode, ← hlength]
  exact ⟨hlt, padded_of_denotes hradix.two_le hdenotes hne⟩

/-- Digits come back from their text, in upper case and without an incomplete group. -/
theorem encode_decode (hradix : Suits radix) (h : IsCode radix (width radix) (Text.trim s)) :
    encode radix (decode radix s)
      = (Text.asciiUpper (Text.trim s)).take
        (width radix * ((Text.trim s).length / width radix)) := by
  have hascii : ∀ c ∈ decode radix s, c.toNat < 128 := by
    rw [decode_of_isCode hradix.width_pos h]
    intro c hc
    obtain ⟨group, hgroup, rfl⟩ := List.mem_map.1 hc
    exact (padded_code hradix h hgroup).1
  have hdigits := List.flatMap_congr fun group hgroup => (padded_code hradix h hgroup).2
  calc
    encode radix (decode radix s)
      = (groups (width radix) (Text.trim s)).flatMap Text.asciiUpper := by
        rw [encode_of_ascii radix hascii, decode_of_isCode hradix.width_pos h, List.flatMap_map]
        exact hdigits
    _ = Text.asciiUpper (groups (width radix) (Text.trim s)).flatten := by
        rw [List.flatMap_def, Text.asciiUpper, List.map_flatten]
        rfl
    _ = _ := by
        rw [flatten_groups hradix.width_pos, Text.asciiUpper, List.map_take]
        rfl

/-- Binary digits are the same in upper case. -/
theorem asciiUpper_of_isCode (h : IsCode 2 size d) : Text.asciiUpper d = d := by
  have hsame : ∀ n < 2, lowerDigits[n]? = upperDigits[n]? := by decide
  refine (List.map_congr_left ?_).trans (List.map_id d)
  intro c hc
  obtain ⟨n, hdigit, hn⟩ := h.digits c hc
  have hupper := upper_of_isDigitOf hdigit
  rw [IsDigitOf, hsame n hn, or_self, hupper] at hdigit
  exact Option.some.inj hdigit

end Codec.Ascii

/-- ASCII text and the digits of its codes are inverse. Text comes back from its digits, two
hexadecimal or eight binary ones to a character. What is read, without the blanks around it, comes
back from its text in upper case and cut to complete groups, if it has digits alone and no complete
group of them is 128 or more; otherwise it gives nothing. Text that is not ASCII has no codes. -/
theorem ascii_and_digits_are_inverse :
    (∀ s : Text, (∀ c ∈ s, c.toNat < 128) →
      Operator.hexToAscii.apply (Operator.asciiToHex.apply s) = s ∧
        Operator.binaryToAscii.apply (Operator.asciiToBinary.apply s) = s) ∧
    (∀ s : Text, let d := Text.trim s
      (Codec.Ascii.IsCode 16 2 d →
        Operator.asciiToHex.apply (Operator.hexToAscii.apply s)
          = (Text.asciiUpper d).take (2 * (d.length / 2))) ∧
      (¬ Codec.Ascii.IsCode 16 2 d → Operator.hexToAscii.apply s = [])) ∧
    (∀ s : Text, let d := Text.trim s
      (Codec.Ascii.IsCode 2 8 d →
        Operator.asciiToBinary.apply (Operator.binaryToAscii.apply s)
          = d.take (8 * (d.length / 8))) ∧
      (¬ Codec.Ascii.IsCode 2 8 d → Operator.binaryToAscii.apply s = [])) ∧
    ∀ s : Text, (∃ c ∈ s, 128 ≤ c.toNat) →
      Operator.asciiToHex.apply s = [] ∧ Operator.asciiToBinary.apply s = [] ∧
        Operator.asciiToDecimal.apply s = [] := by
  have htwo := Codec.Ascii.suits_two
  have hsixteen := Codec.Ascii.suits_sixteen
  refine ⟨?_, ?_, ?_, ?_⟩
  · intro s hs
    exact ⟨Codec.Ascii.decode_encode hsixteen hs, Codec.Ascii.decode_encode htwo hs⟩
  · intro s d
    refine ⟨?_, ?_⟩
    · intro hd
      exact Codec.Ascii.encode_decode hsixteen hd
    · intro hd
      exact Codec.Ascii.decode_of_not_isCode hsixteen.width_pos hd
  · intro s d
    refine ⟨?_, ?_⟩
    · intro hd
      have hdigits := Codec.Ascii.encode_decode htwo hd
      rwa [Codec.Ascii.asciiUpper_of_isCode hd] at hdigits
    · intro hd
      exact Codec.Ascii.decode_of_not_isCode htwo.width_pos hd
  · intro s hs
    have hall := Codec.Ascii.all_isAscii_eq_false hs
    refine ⟨?_, ?_, ?_⟩
    · show Codec.Ascii.encode 16 s = []
      rw [Codec.Ascii.encode, hall]
      rfl
    · show Codec.Ascii.encode 2 s = []
      rw [Codec.Ascii.encode, hall]
      rfl
    · show Codec.Ascii.codes s = []
      rw [Codec.Ascii.codes, hall]
      rfl

/-- Text with blanks at its ends and the least code inside. -/
def controlText : Text := "\t \x00~\n".toList

theorem ascii_and_digits_at_edges :
    (∀ c ∈ controlText, c.toNat < 128) ∧
      Operator.hexToAscii.apply (Operator.asciiToHex.apply controlText) = controlText ∧
      Codec.Ascii.IsCode 16 2 (Text.trim " 7f0a4 ".toList) ∧
      Operator.asciiToHex.apply (Operator.hexToAscii.apply " 7f0a4 ".toList) = "7F0A".toList ∧
      ¬ Codec.Ascii.IsCode 2 8 (Text.trim "1000000001".toList) ∧
      Operator.binaryToAscii.apply "1000000001".toList = [] ∧
      Operator.asciiToDecimal.apply "aé".toList = [] := by
  have hcode : Codec.Ascii.IsCode 16 2 (Text.trim " 7f0a4 ".toList) :=
    (Codec.Ascii.isCode_iff (by decide)).2 (by decide +kernel)
  have hlarge : ¬ Codec.Ascii.IsCode 2 8 (Text.trim "1000000001".toList) := by
    rw [Codec.Ascii.isCode_iff (by decide)]
    decide +kernel
  have hascii : ∀ c ∈ controlText, c.toNat < 128 := by
    have hall : controlText.all (fun c => c.toNat < 128) = true := by decide
    simpa using hall
  obtain ⟨htext, hhex, hbinary, hno⟩ := ascii_and_digits_are_inverse
  refine ⟨hascii, (htext _ hascii).1, hcode, ?_, hlarge, (hbinary _).2 hlarge, (hno _ ?_).2.2⟩
  · exact ((hhex _).1 hcode).trans (by decide)
  · exact ⟨'é', by decide, by decide⟩

end LineScript
