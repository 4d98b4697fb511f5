import LineScript.Proofs.Numerals
import Mathlib.Logic.Relation
import Mathlib.Tactic.IntervalCases

/-!
Roman numerals read and written. Main statement: reading takes exactly the numerals that writing
gives, in either case, and gives back the number of each; stripping symbols off a text comes to an
end whatever the text is.
-/

namespace LineScript

namespace Codec.Roman

open Relation (ReflTransGen)

variable {n d r unit worth total count : Nat} {c : Char} {s symbol left : Text}
  {table later : List (Nat × Text)}

/-- A digit of a place, with the letters for one, five and ten there. -/
def placeDigit (one five ten : Char) : Nat → Text
  | 4 => [one, five]
  | 9 => [one, ten]
  | d => if d < 5 then List.replicate d one else five :: List.replicate (d - 5) one

/-- The text is the numeral of the number: a letter for each thousand, and then the digits of the
hundreds, of the tens and of the ones. -/
structure Spells (n : Nat) (s : Text) : Prop where
  pos : 1 ≤ n
  le_greatest : n ≤ 3999
  digits : s = List.replicate (n / 1000) 'M' ++ placeDigit 'C' 'D' 'M' (n / 100 % 10) ++
    placeDigit 'X' 'L' 'C' (n / 10 % 10) ++ placeDigit 'I' 'V' 'X' (n % 10)

/-- A symbol for some units of a place does not touch what is below the place. -/
theorem spell_units (hr : r < unit) (times : Nat) (symbol : Text) (table : List (Nat × Text)) :
    spell ((times * unit, symbol) :: table) (unit * d + r)
      = (List.replicate (d / times) symbol).flatten ++ spell table (unit * (d % times) + r) := by
  have hquotient : (unit * d + r) / unit = d := by
    rw [Nat.mul_add_div (by omega), Nat.div_eq_of_lt hr, Nat.add_zero]
  have hremainder : (unit * d + r) % unit = r := by
    rw [Nat.mul_add_mod, Nat.mod_eq_of_lt hr]
  rw [spell, Nat.mul_comm times, ← Nat.div_div_eq_div_mul, Nat.mod_mul, hquotient, hremainder,
    Nat.add_comm r]

/-- The four symbols of a place make its digit. -/
theorem spell_place (one five ten : Char) (table : List (Nat × Text)) (hunit : 0 < unit)
    (hn : n < 10 * unit) :
    spell ((9 * unit, [one, ten]) :: (5 * unit, [five]) :: (4 * unit, [one, five]) ::
        (1 * unit, [one]) :: table) n
      = placeDigit one five ten (n / unit) ++ spell table (n % unit) := by
  have hr : n % unit < unit := Nat.mod_lt n hunit
  have hd : n / unit < 10 := Nat.div_lt_of_lt_mul (by rwa [Nat.mul_comm])
  have hdigit : ∀ d < 10, (List.replicate (d / 9) [one, ten]).flatten ++
      ((List.replicate (d % 9 / 5) [five]).flatten ++
        ((List.replicate (d % 9 % 5 / 4) [one, five]).flatten ++
          (List.replicate (d % 9 % 5 % 4 / 1) [one]).flatten)) = placeDigit one five ten d := by
    intro d hd
    interval_cases d <;> rfl
  conv_lhs => rw [← Nat.div_add_mod n unit]
  rw [spell_units hr, spell_units hr, spell_units hr, spell_units hr, ← hdigit _ hd, Nat.mod_one,
    Nat.mul_zero, Nat.zero_add]
  simp only [List.append_assoc]

theorem spell_symbols (n : Nat) :
    spell symbols n = List.replicate (n / 1000) 'M' ++ placeDigit 'C' 'D' 'M' (n / 100 % 10) ++
      placeDigit 'X' 'L' 'C' (n / 10 % 10) ++ placeDigit 'I' 'V' 'X' (n % 10) := by
  have hhundreds : n % 1000 / 100 = n / 100 % 10 := by omega
  have htens : n % 1000 % 100 / 10 = n / 10 % 10 := by omega
  have hones : n % 1000 % 100 % 10 / 1 = n % 10 := by omega
  have hthousands : (List.replicate (n / 1000) ['M']).flatten = List.replicate (n / 1000) 'M' :=
    List.flatten_replicate_singleton
  have hspell : spell symbols n = (List.replicate (n / 1000) ['M']).flatten ++
      (placeDigit 'C' 'D' 'M' (n % 1000 / 100) ++ (placeDigit 'X' 'L' 'C' (n % 1000 % 100 / 10) ++
        (placeDigit 'I' 'V' 'X' (n % 1000 % 100 % 10 / 1) ++ []))) := by
    rw [symbols, spell]
    congr 1
    refine (spell_place 'C' 'D' 'M' _ (by omega : 0 < 100) (by omega)).trans ?_
    congr 1
    refine (spell_place 'X' 'L' 'C' _ (by omega : 0 < 10) (by omega)).trans ?_
    congr 1
    exact spell_place 'I' 'V' 'X' [] (by omega : 0 < 1) (by omega)
  rw [hspell, hhundreds, htens, hones, hthousands, List.append_nil]
  simp only [List.append_assoc]

theorem numeral?_eq_some : numeral? n = some s ↔ 1 ≤ n ∧ n ≤ 3999 ∧ spell symbols n = s := by
  unfold numeral? greatest
  split
  · rename_i hn
    simp [hn]
  · rename_i hn
    simp only [reduceCtorEq, false_iff]
    rintro ⟨hpos, hle, _⟩
    exact hn ⟨hpos, hle⟩

theorem spells_iff : Spells n s ↔ numeral? n = some s := by
  rw [numeral?_eq_some, spell_symbols]
  constructor
  · rintro ⟨hpos, hle, rfl⟩
    exact ⟨hpos, hle, rfl⟩
  · rintro ⟨hpos, hle, rfl⟩
    exact ⟨hpos, hle, rfl⟩

theorem peel_append (hne : symbol ≠ []) (s : Text) :
    peel symbol (symbol ++ s) = ((peel symbol s).1 + 1, (peel symbol s).2) := by
  have hlt : s.length < (symbol ++ s).length := by
    have := List.length_pos_iff.2 hne
    simp only [List.length_append]
    omega
  rw [peel, Text.after?_eq_some.2 rfl]
  simp only [if_pos hlt]

theorem peel_of_no_match (h : ¬ symbol <+: s) : peel symbol s = (0, s) := by
  rw [peel]
  split
  · rename_i rest hrest
    exact (h ⟨rest, (Text.after?_eq_some.1 hrest).symm⟩).elim
  · rfl

theorem peel_replicate (hne : symbol ≠ []) (h : ¬ symbol <+: s) (count : Nat) :
    peel symbol ((List.replicate count symbol).flatten ++ s) = (count, s) := by
  induction count with
  | zero => exact peel_of_no_match h
  | succ count ih =>
    rw [List.replicate_succ, List.flatten_cons, List.append_assoc, peel_append hne, ih]

/-- Where the reading of a text stands: the symbols that may still be stripped off, what those
stripped off so far are worth, and the text that is left. -/
structure Reading where
  table : List (Nat × Text)
  total : Nat
  left : Text

/-- The first symbol is stripped off if the text begins with it, and given up otherwise. -/
inductive Round : Reading → Reading → Prop
  | strip {table : List (Nat × Text)} {worth total : Nat} {symbol left : Text} :
      Round ⟨(worth, symbol) :: table, total, symbol ++ left⟩
        ⟨(worth, symbol) :: table, total + worth, left⟩
  | next {table : List (Nat × Text)} {worth total : Nat} {symbol left : Text} :
      ¬ symbol <+: left → Round ⟨(worth, symbol) :: table, total, left⟩ ⟨table, total, left⟩

def Reading.size (reading : Reading) : Nat := reading.table.length + reading.left.length

theorem size_round {reading after : Reading} (h : Round reading after)
    (hne : ∀ e ∈ reading.table, e.2 ≠ []) :
    after.size < reading.size ∧ ∀ e ∈ after.table, e.2 ≠ [] := by
  cases h with
  | strip =>
    have hpos := List.length_pos_iff.2 (hne _ List.mem_cons_self)
    refine ⟨?_, hne⟩
    simp only [Reading.size, List.length_append] at hpos ⊢
    omega
  | next _ =>
    refine ⟨by simp [Reading.size], ?_⟩
    intro e he
    exact hne e (List.mem_cons_of_mem _ he)

/-- Without an empty symbol there is no endless sequence of rounds. -/
theorem acc_round (reading : Reading) (hne : ∀ e ∈ reading.table, e.2 ≠ []) :
    Acc (flip Round) reading := by
  induction hsize : reading.size using Nat.strongRecOn generalizing reading with
  | ind size ih =>
    refine Acc.intro reading ?_
    intro after hround
    obtain ⟨hlt, hafter⟩ := size_round hround hne
    exact ih after.size (hsize ▸ hlt) after hafter rfl

/-- Rounds strip a symbol off as often as it stands at the front. -/
theorem rounds_peel (hne : symbol ≠ []) (worth : Nat) (table : List (Nat × Text)) (total : Nat)
    (s : Text) :
    ReflTransGen Round ⟨(worth, symbol) :: table, total, s⟩
        ⟨(worth, symbol) :: table, total + (peel symbol s).1 * worth, (peel symbol s).2⟩ ∧
      ¬ symbol <+: (peel symbol s).2 := by
  induction hlength : s.length using Nat.strongRecOn generalizing s total with
  | ind length ih =>
    by_cases hs : symbol <+: s
    · obtain ⟨left, rfl⟩ := hs
      have hpos := List.length_pos_iff.2 hne
      simp only [List.length_append] at hlength
      obtain ⟨hrounds, hleft⟩ := ih left.length (by omega) (total + worth) left rfl
      have htotal : total + ((peel symbol left).1 + 1) * worth
          = total + worth + (peel symbol left).1 * worth := by
        rw [Nat.add_mul, Nat.one_mul]
        omega
      rw [peel_append hne]
      dsimp only
      rw [htotal]
      exact ⟨.head .strip hrounds, hleft⟩
    · rw [peel_of_no_match hs, Nat.zero_mul]
      exact ⟨.refl, hs⟩

/-- Rounds lead to the end of the table, with the total and the rest that the table gives. -/
theorem rounds_tally (hne : ∀ e ∈ table, e.2 ≠ []) (total : Nat) (s : Text) :
    ReflTransGen Round ⟨table, total, s⟩ ⟨[], total + (tally table s).1, (tally table s).2⟩ := by
  induction table generalizing total s with
  | nil => exact .refl
  | cons e table ih =>
    obtain ⟨worth, symbol⟩ := e
    obtain ⟨hsymbol, htable⟩ := List.forall_mem_cons.1 hne
    obtain ⟨hrounds, hleft⟩ := rounds_peel hsymbol worth table total s
    refine (hrounds.tail (.next hleft)).trans ?_
    rw [tally, ← Nat.add_assoc]
    exact ih htable _ _

/-- A text of the later symbols cannot begin with the symbol: none of them begins as it does, or it
has a letter that none of them has. -/
def isApart (symbol : Text) (later : List (Nat × Text)) : Bool :=
  later.all (fun e => e.2.head? ≠ symbol.head?) || symbol.any fun c => later.all fun e => c ∉ e.2

/-- What is spelled with the table can be stripped off again in the order of the table. -/
def isLegible : List (Nat × Text) → Bool
  | [] => true
  | (_, symbol) :: later => symbol ≠ [] && isApart symbol later && isLegible later

theorem exists_of_mem_spell (h : c ∈ spell table n) : ∃ e ∈ table, c ∈ e.2 := by
  induction table generalizing n with
  | nil => cases h
  | cons e table ih =>
    obtain ⟨worth, symbol⟩ := e
    rcases List.mem_append.1 h with h | h
    · obtain ⟨piece, hpiece, hc⟩ := List.mem_flatten.1 h
      rw [List.eq_of_mem_replicate hpiece] at hc
      exact ⟨_, List.mem_cons_self, hc⟩
    · obtain ⟨e, he, hc⟩ := ih h
      exact ⟨e, List.mem_cons_of_mem _ he, hc⟩

theorem exists_of_head?_spell (hne : ∀ e ∈ table, e.2 ≠ [])
    (h : (spell table n).head? = some c) : ∃ e ∈ table, e.2.head? = some c := by
  induction table generalizing n with
  | nil => cases h
  | cons e table ih =>
    obtain ⟨worth, symbol⟩ := e
    obtain ⟨hsymbol, htable⟩ := List.forall_mem_cons.1 hne
    rw [spell] at h
    -- The symbol stands at the front only if it fits into the number at all.
    cases hcount : n / worth with
    | zero =>
      rw [hcount] at h
      obtain ⟨e, he, hc⟩ := ih htable h
      exact ⟨e, List.mem_cons_of_mem _ he, hc⟩
    | succ count =>
      rw [hcount, List.replicate_succ, List.flatten_cons, List.append_assoc,
        List.head?_append_of_ne_nil symbol hsymbol] at h
      exact ⟨_, List.mem_cons_self, h⟩

theorem not_prefix_spell (hsymbol : symbol ≠ []) (hne : ∀ e ∈ later, e.2 ≠ [])
    (h : isApart symbol later = true) (n : Nat) : ¬ symbol <+: spell later n := by
  intro hprefixed
  rcases Bool.or_eq_true_iff.1 h with h | h
  · obtain ⟨c, rest, rfl⟩ := List.exists_cons_of_ne_nil hsymbol
    obtain ⟨tail, htail⟩ := hprefixed
    have hhead : (spell later n).head? = some c := by
      rw [← htail]
      rfl
    obtain ⟨e, he, hc⟩ := exists_of_head?_spell hne hhead
    exact of_decide_eq_true (List.all_eq_true.1 h e he) hc
  · obtain ⟨c, hc, hall⟩ := List.any_eq_true.1 h
    obtain ⟨e, he, hmem⟩ := exists_of_mem_spell (hprefixed.subset hc)
    exact of_decide_eq_true (List.all_eq_true.1 hall e he) hmem

theorem ne_nil_of_isLegible (h : isLegible table = true) : ∀ e ∈ table, e.2 ≠ [] := by
  induction table with
  | nil => simp
  | cons e table ih =>
    simp only [isLegible, Bool.and_eq_true, decide_eq_true_eq] at h
    exact List.forall_mem_cons.2 ⟨h.1.1, ih h.2⟩

/-- What is spelled is stripped off to the last letter, and nothing but the remainder that no symbol
fits is missing from the total. -/
theorem tally_spell (h : isLegible table = true) (n : Nat) :
    (tally table (spell table n)).2 = [] ∧
      (tally table (spell table n)).1 + table.foldl (fun n e => n % e.1) n = n := by
  induction table generalizing n with
  | nil => exact ⟨rfl, Nat.zero_add n⟩
  | cons e table ih =>
    obtain ⟨worth, symbol⟩ := e
    simp only [isLegible, Bool.and_eq_true, decide_eq_true_eq] at h
    obtain ⟨⟨hsymbol, hapart⟩, htable⟩ := h
    -- The rest cannot begin with this symbol again, so that it is stripped off just as often as it
    -- was put down.
    have hrest := not_prefix_spell hsymbol (ne_nil_of_isLegible htable) hapart (n % worth)
    obtain ⟨hleft, htotal⟩ := ih htable (n % worth)
    rw [spell, tally, peel_replicate hsymbol hrest]
    refine ⟨hleft, ?_⟩
    calc
      n / worth * worth + (tally table (spell table (n % worth))).1 +
          table.foldl (fun n e => n % e.1) (n % worth)
        = n / worth * worth + n % worth := by rw [Nat.add_assoc, htotal]
      _ = n := Nat.div_add_mod' n worth

theorem isLegible_symbols : isLegible symbols = true := by decide

theorem tally_spell_symbols (n : Nat) : tally symbols (spell symbols n) = (n, []) := by
  obtain ⟨hleft, htotal⟩ := tally_spell isLegible_symbols n
  -- The last symbol is worth one, so that no remainder is left.
  have hremainder : symbols.foldl (fun n e => n % e.1) n = 0 := Nat.mod_one _
  rw [hremainder, Nat.add_zero] at htotal
  exact Prod.ext htotal hleft

/-- A text has a number exactly if it is the numeral of that number. -/
theorem number?_eq_some : number? s = some n ↔ numeral? n = some s := by
  constructor
  · intro h
    unfold number? at h
    dsimp only at h
    split at h
    · rename_i hwritten
      cases h
      exact hwritten.2
    · cases h
  · intro h
    obtain ⟨_, _, hspell⟩ := numeral?_eq_some.1 h
    have htally := tally_spell_symbols n
    rw [hspell] at htally
    simp only [number?, htally, h, and_self, if_true]

/-- A numeral is in upper case and has no blank around it. -/
theorem asciiUpper_trim_numeral (h : numeral? n = some s) : Text.asciiUpper (Text.trim s) = s := by
  have hletters : symbols.all (fun e => e.2.all fun c => c.toUpper = c && !isBlank c) = true := by
    decide
  obtain ⟨_, _, hspell⟩ := numeral?_eq_some.1 h
  have hs : ∀ c ∈ s, c.toUpper = c ∧ isBlank c = false := by
    intro c hc
    rw [← hspell] at hc
    obtain ⟨e, he, hmem⟩ := exists_of_mem_spell hc
    simpa using List.all_eq_true.1 (List.all_eq_true.1 hletters e he) c hmem
  rw [Text.trim_of_no_blank fun c hc => (hs c hc).2, Text.asciiUpper]
  exact (List.map_congr_left fun c hc => (hs c hc).1).trans (List.map_id s)

/-- Only zero would be spelled without a letter. -/
theorem ne_nil_of_numeral? (h : numeral? n = some s) : s ≠ [] := by
  rintro rfl
  obtain ⟨hpos, _, hspell⟩ := numeral?_eq_some.1 h
  have hzero : spell symbols 0 = spell symbols n := hspell.symm
  have htally := tally_spell_symbols n
  rw [← hzero, tally_spell_symbols] at htally
  cases htally
  omega

theorem decode_of_numeral? (h : numeral? n = some (Text.asciiUpper (Text.trim s))) :
    decode s = Numeral.decimal n := by
  rw [decode, number?_eq_some.2 h]
  rfl

theorem exists_of_decode (h : decode s ≠ []) :
    ∃ n, numeral? n = some (Text.asciiUpper (Text.trim s)) := by
  cases hnumber : number? (Text.asciiUpper (Text.trim s)) with
  | none =>
    rw [decode, hnumber] at h
    exact (h rfl).elim
  | some n => exact ⟨n, number?_eq_some.1 hnumber⟩

theorem numeral?_encode (hs : Numeral.Writes 10 s n) (hpos : 1 ≤ n) (hle : n ≤ 3999) :
    numeral? n = some (encode s) := by
  have hnumeral : numeral? n = some (spell symbols n) := numeral?_eq_some.2 ⟨hpos, hle, rfl⟩
  rw [encode, Numeral.parse?_eq_some.2 hs, Option.bind_some, hnumeral, Option.getD_some]

theorem exists_of_encode (h : encode s ≠ []) :
    ∃ n, 1 ≤ n ∧ n ≤ 3999 ∧ Numeral.Writes 10 s n := by
  cases hvalue : (Numeral.parse? 10 s).bind numeral? with
  | none =>
    rw [encode, hvalue] at h
    exact (h rfl).elim
  | some numeral =>
    obtain ⟨n, hparse, hnumeral⟩ := Option.bind_eq_some_iff.1 hvalue
    obtain ⟨hpos, hle, _⟩ := numeral?_eq_some.1 hnumeral
    exact ⟨n, hpos, hle, Numeral.parse?_eq_some.1 hparse⟩

/-- A number goes to its numeral and back. -/
theorem decode_encode (hs : Numeral.Writes 10 s n) (hpos : 1 ≤ n) (hle : n ≤ 3999) :
    decode (encode s) = Numeral.decimal n := by
  have hnumeral := numeral?_encode hs hpos hle
  refine decode_of_numeral? ?_
  rw [asciiUpper_trim_numeral hnumeral, hnumeral]

theorem isNumeral_decimal (n : Nat) : Numeral.IsNumeral 10 n (Numeral.decimal n) :=
  Numeral.isNumeral_write (by decide) (by decide) n

/-- Roman numerals are read and written exactly. What is read is, in upper case and without the
blanks around it, the numeral of one number from 1 to 3999, and the result is the decimal numeral of
that number; anything else gives nothing. What is written comes from a decimal numeral of such a
number, and is read back as that number. The numerals have a letter for each thousand and then the
digits of three places. Stripping symbols off comes to an end on every text. -/
theorem roman_numerals_are_exact :
    (∀ s : Text, let r := Text.asciiUpper (Text.trim s)
      (Operator.romanToDecimal.apply s ≠ [] ↔ ∃ n, 1 ≤ n ∧ n ≤ 3999 ∧ numeral? n = some r) ∧
      ∀ n, 1 ≤ n → n ≤ 3999 → numeral? n = some r →
        (∀ m, numeral? m = some r → m = n) ∧
          Numeral.IsNumeral 10 n (Operator.romanToDecimal.apply s)) ∧
    (∀ t : Text,
      (Operator.decimalToRoman.apply t ≠ [] ↔ ∃ n, 1 ≤ n ∧ n ≤ 3999 ∧ Numeral.Writes 10 t n) ∧
      ∀ n, 1 ≤ n → n ≤ 3999 → Numeral.Writes 10 t n →
        numeral? n = some (Operator.decimalToRoman.apply t) ∧
          Numeral.IsNumeral 10 n
            (Operator.romanToDecimal.apply (Operator.decimalToRoman.apply t))) ∧
    (∀ n s, numeral? n = some s ↔ Spells n s) ∧
    ∀ s : Text, Acc (flip Round) ⟨symbols, 0, s⟩ ∧
      Relation.ReflTransGen Round ⟨symbols, 0, s⟩
        ⟨[], (tally symbols s).1, (tally symbols s).2⟩ := by
  have hne := ne_nil_of_isLegible isLegible_symbols
  refine ⟨?_, ?_, fun n s => spells_iff.symm, ?_⟩
  · intro s r
    refine ⟨⟨?_, ?_⟩, ?_⟩
    · intro hread
      obtain ⟨n, hn⟩ := exists_of_decode hread
      obtain ⟨hpos, hle, _⟩ := numeral?_eq_some.1 hn
      exact ⟨n, hpos, hle, hn⟩
    · rintro ⟨n, _, _, hn⟩
      show decode s ≠ []
      rw [decode_of_numeral? hn]
      exact (isNumeral_decimal n).nonempty
    · intro n _ _ hn
      refine ⟨?_, ?_⟩
      · intro m hm
        have hnumber := number?_eq_some.2 hm
        rw [number?_eq_some.2 hn] at hnumber
        exact (Option.some.inj hnumber).symm
      · show Numeral.IsNumeral 10 n (decode s)
        rw [decode_of_numeral? hn]
        exact isNumeral_decimal n
  · intro t
    refine ⟨⟨exists_of_encode, ?_⟩, ?_⟩
    · rintro ⟨n, hpos, hle, hn⟩
      exact ne_nil_of_numeral? (numeral?_encode hn hpos hle)
    · intro n hpos hle hn
      refine ⟨numeral?_encode hn hpos hle, ?_⟩
      show Numeral.IsNumeral 10 n (decode (encode t))
      rw [decode_encode hn hpos hle]
      exact isNumeral_decimal n
  · intro s
    refine ⟨acc_round _ hne, ?_⟩
    have hrounds := rounds_tally hne 0 s
    rwa [Nat.zero_add] at hrounds

/-- A numeral in mixed case between blanks, with a subtractive pair in every place. -/
def mixedNumeral : Text := " mCmXciX\t".toList

theorem mixedNumeral_is_read :
    numeral? 1999 = some (Text.asciiUpper (Text.trim mixedNumeral)) ∧
      Numeral.IsNumeral 10 1999 (Operator.romanToDecimal.apply mixedNumeral) ∧
      Numeral.Writes 10 " 03999".toList 3999 ∧
      numeral? 3999 = some (Operator.decimalToRoman.apply " 03999".toList) ∧
      Numeral.IsNumeral 10 3999
        (Operator.romanToDecimal.apply (Operator.decimalToRoman.apply " 03999".toList)) := by
  have hmixed : numeral? 1999 = some (Text.asciiUpper (Text.trim mixedNumeral)) := by decide
  have hwrites : Numeral.Writes 10 " 03999".toList 3999 := Numeral.parse?_eq_some.1 (by decide)
  obtain ⟨hread, hwritten, _, _⟩ := roman_numerals_are_exact
  obtain ⟨_, hnumber⟩ := (hread mixedNumeral).2 1999 (by decide) (by decide) hmixed
  obtain ⟨hnumeral, hback⟩ := (hwritten " 03999".toList).2 3999 (by decide) (by decide) hwrites
  exact ⟨hmixed, hnumber, hwrites, hnumeral, hback⟩

end Codec.Roman

end LineScript
