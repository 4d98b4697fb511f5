import LineScript.Proofs.Ascii
import LineScript.Proofs.Occurrence
import LineScript.Proofs.TokenGrammar

/-!
What the report on an unknown value says. Main statement: it lists the results of all operators that
fit the value and have one, and each line of it shows a conversion that prints just that result.
-/

namespace LineScript

variable {v name name' result result' : Text} {names lines : List Text}

/-- The line of a report for an operator and its result. -/
def readingText (name v result : Text) : Text :=
  Token.conversionText name v ++ " = ".toList ++ result

/-- The lines of a report for some operators: one for each whose result is not empty, with that
result. -/
inductive Readings (v : Text) : List Text → List Text → Prop
  | nil : Readings v [] []
  | shown {name result : Text} {names lines : List Text} :
      Converter.standard.convert name v = some result → result ≠ [] → Readings v names lines →
      Readings v (name :: names) (readingText name v result :: lines)
  | silent {name : Text} {names lines : List Text} :
      Converter.standard.convert name v = some [] → Readings v names lines →
      Readings v (name :: names) lines

/-- What a report says of a value after its headline. -/
structure Guess where
  verdict : Text
  /-- The operators whose results it lists. -/
  names : List Text
  /-- Those among them that read the value as a number. -/
  numeric : List Text
  /-- In what radix they read it. -/
  radix : Nat

namespace Guess

def binary : Guess where
  verdict := "It might be binary.".toList
  names := ["bin->dec".toList, "bin->hex".toList, "bin->ascii".toList]
  numeric := ["bin->dec".toList, "bin->hex".toList]
  radix := 2

def hexadecimal : Guess where
  verdict := "It might be hexadecimal.".toList
  names := ["hex->dec".toList, "hex->ascii".toList]
  numeric := ["hex->dec".toList]
  radix := 16

def nothing : Guess where
  verdict := "No interpretation found.".toList
  names := []
  numeric := []
  radix := 0

end Guess

/-- The guess that fits a value, where binary goes before hexadecimal. -/
inductive Guesses (v : Text) : Guess → Prop
  | binary : (∀ c ∈ v, c = '0' ∨ c = '1') → Guesses v .binary
  | hexadecimal : ¬ (∀ c ∈ v, c = '0' ∨ c = '1') →
      (∀ c ∈ v, c ∈ Numeral.upperDigits ∨ c ∈ Numeral.lowerDigits) → Guesses v .hexadecimal
  | nothing : ¬ (∀ c ∈ v, c = '0' ∨ c = '1') →
      ¬ (∀ c ∈ v, c ∈ Numeral.upperDigits ∨ c ∈ Numeral.lowerDigits) → Guesses v .nothing

theorem Numeral.isDigit_sixteen_iff {c : Char} :
    Numeral.isDigit 16 c = true ↔ c ∈ Numeral.upperDigits ∨ c ∈ Numeral.lowerDigits := by
  rw [Codec.Ascii.isDigit_iff]
  constructor
  · rintro ⟨n, hdigit, _⟩
    exact hdigit.imp List.mem_of_getElem? List.mem_of_getElem?
  · rintro (hmem | hmem)
    · obtain ⟨n, hn⟩ := List.mem_iff_getElem?.1 hmem
      exact ⟨n, .inl hn, Numeral.lt_of_isDigitOf (.inl hn)⟩
    · obtain ⟨n, hn⟩ := List.mem_iff_getElem?.1 hmem
      exact ⟨n, .inr hn, Numeral.lt_of_isDigitOf (.inr hn)⟩

/-- A value for which a report lists operators is made of digits. -/
theorem Guesses.digits {guess : Guess} (h : Guesses v guess) (hne : guess.names ≠ []) :
    v.all (Numeral.isDigit guess.radix) = true := by
  refine List.all_eq_true.2 ?_
  intro c hc
  cases h with
  | binary h =>
    rcases h c hc with rfl | rfl
    · decide
    · decide
  | hexadecimal _ h => exact Numeral.isDigit_sixteen_iff.2 (h c hc)
  | nothing => exact (hne rfl).elim

theorem readings_filterMap {readings : List (Text × Operator)} (v : Text)
    (h : ∀ reading ∈ readings, Operator.ofName? reading.1 = some reading.2) :
    Readings v (readings.map Prod.fst) (readings.filterMap (readingLine? v)) := by
  induction readings with
  | nil => exact .nil
  | cons reading readings ih =>
    obtain ⟨name, operator⟩ := reading
    obtain ⟨hname, hrest⟩ := List.forall_mem_cons.1 h
    have hconvert : Converter.standard.convert name v = some (operator.apply v) :=
      congrArg (Option.map fun operator => Operator.apply operator v) hname
    by_cases hempty : operator.apply v = []
    · have hline : readingLine? v (name, operator) = none := by simp [readingLine?, hempty]
      rw [List.filterMap_cons_none hline]
      rw [hempty] at hconvert
      exact .silent hconvert (ih hrest)
    · have hline : readingLine? v (name, operator)
          = some (readingText name v (operator.apply v)) := by
        simp [readingLine?, hempty, readingText, Token.conversionText]
      rw [List.filterMap_cons_some hline]
      exact .shown hconvert hempty (ih hrest)

/-- The verdict on a value is that of the guess that fits it, and the report uses the names by which
the operators are known. -/
theorem guesses_verdict (v : Text) :
    ∃ guess, Guesses v guess ∧ (verdict v).1 = guess.verdict ∧
      (verdict v).2.map Prod.fst = guess.names ∧
      ∀ reading ∈ (verdict v).2, Operator.ofName? reading.1 = some reading.2 := by
  have hall : (v.all fun c => c = '0' || c = '1') = true ↔ ∀ c ∈ v, c = '0' ∨ c = '1' := by
    simp
  have hallHex : v.all (Numeral.isDigit 16) = true ↔
      ∀ c ∈ v, c ∈ Numeral.upperDigits ∨ c ∈ Numeral.lowerDigits := by
    simp only [List.all_eq_true, Numeral.isDigit_sixteen_iff]
  unfold verdict
  split
  · rename_i hv
    exact ⟨.binary, .binary (hall.1 hv), rfl, rfl, by decide⟩
  · rename_i hv
    split
    · rename_i hhex
      exact ⟨.hexadecimal, .hexadecimal (mt hall.2 hv) (hallHex.1 hhex), rfl, rfl, by decide⟩
    · rename_i hhex
      exact ⟨.nothing, .nothing (mt hall.2 hv) (mt hallHex.2 hhex), rfl, rfl, by simp⟩

theorem report_of_trim_ne_nil {input : Text} (h : Text.trim input ≠ []) :
    identificationReport input
      = ("Trying to figure out what ".toList ++ Text.trim input ++ " is ...".toList) ::
        (verdict (Text.trim input)).1 ::
          (verdict (Text.trim input)).2.filterMap (readingLine? (Text.trim input)) := by
  simp only [identificationReport, if_neg h]

theorem report_eq_nil_iff {input : Text} :
    identificationReport input = [] ↔ Text.trim input = [] := by
  constructor
  · intro h
    by_contra hne
    rw [report_of_trim_ne_nil hne] at h
    cases h
  · intro h
    simp only [identificationReport, if_pos h]

/-- The names in a line end at its first bracket. -/
theorem readingText_inj (h : '[' ∉ name) (h' : '[' ∉ name')
    (heq : readingText name v result = readingText name' v result') :
    name = name' ∧ result = result' := by
  have hsplit (name result : Text) : readingText name v result
      = "::".toList ++ (name ++ ['['] ++ (v ++ "] = ".toList ++ result)) := by
    simp [readingText, Token.conversionText]
  rw [hsplit, hsplit] at heq
  obtain ⟨hname, hrest⟩ := Text.append_singleton_inj h h' (List.append_cancel_left heq)
  exact ⟨hname, List.append_cancel_left hrest⟩

theorem Readings.exists_of_mem {line : Text} (h : Readings v names lines) (hline : line ∈ lines) :
    ∃ name ∈ names, ∃ result, Converter.standard.convert name v = some result ∧ result ≠ [] ∧
      line = readingText name v result := by
  induction h with
  | nil => cases hline
  | shown hconvert hne _ ih =>
    rcases List.mem_cons.1 hline with rfl | hline
    · exact ⟨_, List.mem_cons_self, _, hconvert, hne, rfl⟩
    · obtain ⟨name, hname, hrest⟩ := ih hline
      exact ⟨name, List.mem_cons_of_mem _ hname, hrest⟩
  | silent _ _ ih =>
    obtain ⟨name, hname, hrest⟩ := ih hline
    exact ⟨name, List.mem_cons_of_mem _ hname, hrest⟩

theorem Readings.mem (h : Readings v names lines) (hname : name ∈ names)
    (hconvert : Converter.standard.convert name v = some result) (hne : result ≠ []) :
    readingText name v result ∈ lines := by
  induction h with
  | nil => cases hname
  | shown hshown _ _ ih =>
    rcases List.mem_cons.1 hname with rfl | hname
    · rw [hconvert] at hshown
      cases hshown
      exact List.mem_cons_self
    · exact List.mem_cons_of_mem _ (ih hname)
  | silent hsilent _ ih =>
    rcases List.mem_cons.1 hname with rfl | hname
    · rw [hconvert] at hsilent
      cases hsilent
      exact (hne rfl).elim
    · exact ih hname

/-- A report has the line of an operator exactly if the line shows what the operator gives. -/
theorem Readings.mem_iff (h : Readings v names lines) (hnames : ∀ name ∈ names, '[' ∉ name)
    (hname : name ∈ names) :
    readingText name v result ∈ lines ↔
      Converter.standard.convert name v = some result ∧ result ≠ [] := by
  constructor
  · intro hline
    obtain ⟨name', hname', result', hconvert, hne, heq⟩ := h.exists_of_mem hline
    obtain ⟨rfl, rfl⟩ := readingText_inj (hnames name hname) (hnames name' hname') heq
    exact ⟨hconvert, hne⟩
  · rintro ⟨hconvert, hne⟩
    exact h.mem hname hconvert hne

/-- Converting a value in a line by itself gives what the operator gives. -/
theorem render_conversionText (hne : name ≠ [])
    (hchars : ∀ c ∈ name, Token.isOperatorChar c = true) (hopening : '[' ∉ v) (hclosing : ']' ∉ v)
    (hconvert : Converter.standard.convert name v = some result) (store : Store) :
    Template.read (Token.conversionText name v)
        = [.conversion name (.literal v) (Token.conversionText name v)] ∧
      (Template.read (Token.conversionText name v)).render Converter.standard store = result := by
  have hread := Template.read_conversionText hne hchars
    (Text.balanced_of_no_bracket hopening hclosing)
  rw [Operand.read_of_no_bracket hopening] at hread
  refine ⟨hread, ?_⟩
  rw [hread, Template.render, List.flatMap_singleton]
  simp only [Part.render, Store.resolve, hconvert, Option.getD_some]

namespace Guesses

variable {guess : Guess}

/-- Every name that a report can show is an operator of a conversion. -/
theorem isOperator (h : Guesses v guess) (hname : name ∈ guess.names) :
    name ≠ [] ∧ ∀ c ∈ name, Token.isOperatorChar c = true := by
  have hall : (guess.names.all fun name => name ≠ [] && name.all Token.isOperatorChar) = true := by
    cases h <;> decide
  simpa using List.all_eq_true.1 hall name hname

theorem bracket_not_mem (h : Guesses v guess) : ∀ name ∈ guess.names, '[' ∉ name := by
  intro name hname hmem
  have hbracket : Token.isOperatorChar '[' = false := by decide
  rw [(h.isOperator hname).2 '[' hmem] at hbracket
  cases hbracket

/-- The numeric operators change the radix from that of the guess. -/
theorem exists_of_numeric (h : Guesses v guess) (hname : name ∈ guess.numeric) :
    name ∈ guess.names ∧ ∃ operator target, Operator.ofName? name = some operator ∧
      operator.radices? = some (guess.radix, target) := by
  have hall : (guess.numeric.all fun name => guess.names.contains name &&
      (Operator.ofName? name).any fun operator =>
        operator.radices?.any fun radices => radices.1 = guess.radix) = true := by
    cases h <;> decide
  have hsound := List.all_eq_true.1 hall name hname
  rw [Bool.and_eq_true, List.contains_iff_mem, Option.any_eq_true] at hsound
  obtain ⟨hmem, operator, hoperator, hradices⟩ := hsound
  obtain ⟨⟨radix, target⟩, hradices, hradix⟩ := (Option.any_eq_true _ _).1 hradices
  obtain rfl : radix = guess.radix := of_decide_eq_true hradix
  exact ⟨hmem, operator, target, hoperator, hradices⟩

/-- A numeric operator has a result exactly if the value denotes a number below the bound. -/
theorem exists_result_iff (h : Guesses v guess) (hname : name ∈ guess.numeric) (hne : v ≠ []) :
    (∃ result, Converter.standard.convert name v = some result ∧ result ≠ []) ↔
      ∃ n, Numeral.Denotes guess.radix v n ∧ n < Nat.pow 2 64 := by
  obtain ⟨hmem, operator, target, hoperator, hradices⟩ := h.exists_of_numeric hname
  obtain ⟨happly, _, _, htarget, htarget'⟩ := Operator.apply_of_radices? hradices
  have hconvert : Converter.standard.convert name v
      = some (Numeral.convert guess.radix target v) := by
    rw [← happly]
    exact congrArg (Option.map fun operator => Operator.apply operator v) hoperator
  have hdigits := h.digits (List.ne_nil_of_mem hmem)
  calc
    (∃ result, Converter.standard.convert name v = some result ∧ result ≠ [])
      ↔ Numeral.convert guess.radix target v ≠ [] := by simp [hconvert]
    _ ↔ ∃ n, Numeral.parse? guess.radix v = some n := by
        rw [ne_eq, Numeral.convert_eq_nil_iff htarget htarget', ← ne_eq, Option.ne_none_iff_exists']
    _ ↔ ∃ n, Numeral.Denotes guess.radix v n ∧ n < Nat.pow 2 64 := by
        refine exists_congr fun n => ?_
        rw [Numeral.parse?_eq_some, Numeral.writes_iff_denotes hdigits hne]

end Guesses

/-- A report can be reproduced and misses nothing. There is none on a blank value. Any other has a
headline, a verdict and, in order, the lines of all operators that fit the verdict and give
something. The conversion that such a line shows is read as one part and prints the result in the
line, whatever the variables are. The numeric operators are there exactly if the value denotes a
number below 2^64. -/
theorem report_can_be_reproduced (input : Text) :
    let v := Text.trim input
    let report := Converter.standard.identify input
    (report = [] ↔ v = []) ∧
    (v ≠ [] → ∃ guess lines, Guesses v guess ∧
      report = ("Trying to figure out what ".toList ++ v ++ " is ...".toList) ::
        guess.verdict :: lines ∧
      Readings v guess.names lines ∧
      (∀ name ∈ guess.names, ∀ result, readingText name v result ∈ lines →
        Template.read (Token.conversionText name v)
            = [.conversion name (.literal v) (Token.conversionText name v)] ∧
          ∀ store, (Template.read (Token.conversionText name v)).render Converter.standard store
            = result) ∧
      ∀ name ∈ guess.numeric, (∃ result, readingText name v result ∈ lines) ↔
        ∃ n, Numeral.Denotes guess.radix v n ∧ n < Nat.pow 2 64) := by
  intro v report
  refine ⟨report_eq_nil_iff, ?_⟩
  intro hne
  obtain ⟨guess, hguess, hverdict, hnames, hknown⟩ := guesses_verdict v
  have hreadings := readings_filterMap v hknown
  rw [hnames] at hreadings
  refine ⟨guess, _, hguess, ?_, hreadings, ?_, ?_⟩
  · rw [← hverdict]
    exact report_of_trim_ne_nil hne
  · intro name hname result hline
    -- A line tells its operator and its result apart, so that the result is that of the operator.
    obtain ⟨hconvert, _⟩ := (hreadings.mem_iff hguess.bracket_not_mem hname).1 hline
    have hdigits := hguess.digits (List.ne_nil_of_mem hname)
    have hprint := render_conversionText (hguess.isOperator hname).1 (hguess.isOperator hname).2
      (Numeral.not_mem_of_digits hdigits (by decide))
      (Numeral.not_mem_of_digits hdigits (by decide)) hconvert
    exact ⟨(hprint {}).1, fun store => (hprint store).2⟩
  · intro name hname
    rw [← hguess.exists_result_iff hname hne]
    have hmem := (hguess.exists_of_numeric hname).1
    exact exists_congr fun result => hreadings.mem_iff hguess.bracket_not_mem hmem

/-- A letter's code between blanks, which is no row of binary digits. -/
def paddedCode : Text := " 4e\t".toList

theorem paddedCode_is_reproduced :
    Text.trim paddedCode = "4e".toList ∧
      Converter.standard.identify paddedCode
        = ["Trying to figure out what 4e is ...".toList, "It might be hexadecimal.".toList,
          "::hex->dec[4e] = 78".toList, "::hex->ascii[4e] = N".toList] ∧
      ∀ store, (Template.read "::hex->ascii[4e]".toList).render Converter.standard store
        = ['N'] := by
  have htrim : Text.trim paddedCode = "4e".toList := by decide
  have hreport : Converter.standard.identify paddedCode
      = ["Trying to figure out what 4e is ...".toList, "It might be hexadecimal.".toList,
        "::hex->dec[4e] = 78".toList, "::hex->ascii[4e] = N".toList] := by decide +kernel
  obtain ⟨_, hreadings⟩ := report_can_be_reproduced paddedCode
  rw [htrim, hreport] at hreadings
  obtain ⟨guess, lines, hguess, hlines, _, hprints, _⟩ := hreadings (by decide)
  obtain ⟨hverdict, rfl⟩ := List.cons.inj (List.cons.inj hlines).2
  cases hguess with
  | binary => exact absurd hverdict (by decide)
  | nothing => exact absurd hverdict (by decide)
  | hexadecimal =>
    exact ⟨htrim, hreport, (hprints "hex->ascii".toList (by decide) ['N'] (by decide)).2⟩

end LineScript
