import LineScript.Proofs.Device
import LineScript.Proofs.Effect
import LineScript.Proofs.Identification
import LineScript.Proofs.SourceLines

/-!
How many lines a report prints. Main statement: as many as it has entries, except where a value is
read as text with a line feed, whose code may stand among its digits.
-/

namespace LineScript

variable {v input : Text} {radix : Nat}

/-- The digits are codes of characters, so many to a code, and one code is that of a line feed. -/
structure FeedCode (radix size : Nat) (v : Text) : Prop where
  isCode : Codec.Ascii.IsCode radix size v
  has_feed : ∃ precedes group follows, v = precedes ++ group ++ follows ∧
    size ∣ precedes.length ∧ group.length = size ∧ Numeral.Denotes radix group 10

/-- A report on the value reads text with a line feed from it: in binary, or in hexadecimal if the
value is not binary. -/
def ReadsFeed (v : Text) : Prop :=
  FeedCode 2 8 v ∨ ¬ (∀ c ∈ v, c = '0' ∨ c = '1') ∧ FeedCode 16 2 v

theorem feed_not_mem_convert {source target : Nat} (hradix : 1 < target) (hle : target ≤ 16)
    (s : Text) : '\n' ∉ Numeral.convert source target s := by
  cases h : Numeral.parse? source s with
  | none =>
    rw [Numeral.convert_of_none target h]
    simp
  | some n =>
    rw [Numeral.convert_of_some target h]
    have hdigits := (Numeral.denotes_iff.1 (Numeral.isNumeral_write hradix hle n).denotes).1
    exact Numeral.not_mem_of_digits hdigits (by decide)

/-- Decoded digits hold a line feed exactly if its code stands among them. -/
theorem feed_mem_decode_iff (hsize : 0 < Codec.Ascii.width radix) (hv : Text.trim v = v) :
    '\n' ∈ Codec.Ascii.decode radix v ↔ FeedCode radix (Codec.Ascii.width radix) v := by
  by_cases hcode : Codec.Ascii.IsCode radix (Codec.Ascii.width radix) v
  · have htrimmed := hcode
    rw [← hv] at htrimmed
    obtain ⟨hall, hbelow⟩ := (Codec.Ascii.isCode_iff hsize).1 hcode
    rw [Codec.Ascii.decode_of_isCode hsize htrimmed, hv, List.mem_map]
    constructor
    · rintro ⟨group, hgroup, hfeed⟩
      have hcharacter := Codec.Ascii.char?_of_lt (hbelow group hgroup)
      have hten : Numeral.value radix group = 10 := by
        rw [← (Codec.Ascii.char?_eq_some.1 hcharacter).2, hfeed]
        rfl
      obtain ⟨precedes, follows, hwhole, hplace, hlength⟩ :=
        (Codec.Ascii.mem_groups_iff hsize).1 hgroup
      have hdenotes := (Codec.Ascii.denotes_of_mem_groups hsize hall hgroup).2
      rw [hten] at hdenotes
      exact ⟨hcode, precedes, group, follows, hwhole, hplace, hlength, hdenotes⟩
    · rintro ⟨_, precedes, group, follows, hwhole, hplace, hlength, hdenotes⟩
      refine ⟨group, (Codec.Ascii.mem_groups_iff hsize).2
        ⟨precedes, follows, hwhole, hplace, hlength⟩, ?_⟩
      rw [(Numeral.denotes_iff.1 hdenotes).2]
  · have htrimmed := hcode
    rw [← hv] at htrimmed
    rw [Codec.Ascii.decode_of_not_isCode hsize htrimmed]
    constructor
    · intro hmem
      cases hmem
    · intro hfeed
      exact (hcode hfeed.isCode).elim

theorem readingLine?_eq_some {name line : Text} {operator : Operator} :
    readingLine? v (name, operator) = some line ↔
      operator.apply v ≠ [] ∧ line = readingText name v (operator.apply v) := by
  by_cases hempty : operator.apply v = []
  · simp [readingLine?, hempty]
  · simp [readingLine?, hempty, readingText, Token.conversionText, eq_comm]

/-- In the line of a reading, only its result can hold a line feed. -/
theorem feed_mem_readingText_iff {name result : Text} (hname : '\n' ∉ name) (hv : '\n' ∉ v) :
    '\n' ∈ readingText name v result ↔ '\n' ∈ result := by
  simp [readingText, Token.conversionText, hname, hv]

theorem feed_mem_readings_iff {readings : List (Text × Operator)} (hv : '\n' ∉ v)
    (hnames : ∀ reading ∈ readings, '\n' ∉ reading.1) :
    (∃ line ∈ readings.filterMap (readingLine? v), '\n' ∈ line) ↔
      ∃ reading ∈ readings, '\n' ∈ reading.2.apply v := by
  constructor
  · rintro ⟨line, hline, hfeed⟩
    obtain ⟨⟨name, operator⟩, hreading, hshown⟩ := List.mem_filterMap.1 hline
    obtain ⟨_, rfl⟩ := readingLine?_eq_some.1 hshown
    exact ⟨_, hreading, (feed_mem_readingText_iff (hnames _ hreading) hv).1 hfeed⟩
  · rintro ⟨⟨name, operator⟩, hreading, hfeed⟩
    refine ⟨readingText name v (operator.apply v), ?_,
      (feed_mem_readingText_iff (hnames _ hreading) hv).2 hfeed⟩
    exact List.mem_filterMap.2 ⟨_, hreading,
      readingLine?_eq_some.2 ⟨List.ne_nil_of_mem hfeed, rfl⟩⟩

theorem feed_mem_binaryReadings_iff (hv : Text.trim v = v) :
    (∃ reading ∈ binaryReadings, '\n' ∈ reading.2.apply v) ↔ FeedCode 2 8 v := by
  have hdecimal : '\n' ∉ Operator.binaryToDecimal.apply v :=
    feed_not_mem_convert (by decide) (by decide) v
  have hhex : '\n' ∉ Operator.binaryToHex.apply v :=
    feed_not_mem_convert (by decide) (by decide) v
  have hascii : '\n' ∈ Operator.binaryToAscii.apply v ↔ FeedCode 2 8 v :=
    feed_mem_decode_iff (by decide) hv
  simp [binaryReadings, hdecimal, hhex, hascii]

theorem feed_mem_hexReadings_iff (hv : Text.trim v = v) :
    (∃ reading ∈ hexReadings, '\n' ∈ reading.2.apply v) ↔ FeedCode 16 2 v := by
  have hdecimal : '\n' ∉ Operator.hexToDecimal.apply v :=
    feed_not_mem_convert (by decide) (by decide) v
  have hascii : '\n' ∈ Operator.hexToAscii.apply v ↔ FeedCode 16 2 v :=
    feed_mem_decode_iff (by decide) hv
  simp [hexReadings, hdecimal, hascii]

/-- Codes of binary digits are binary. -/
theorem FeedCode.binary (h : FeedCode 2 8 v) : ∀ c ∈ v, c = '0' ∨ c = '1' := by
  intro c hc
  obtain ⟨n, hdigit, hn⟩ := h.isCode.digits c hc
  have hzero : Numeral.upperDigits[0]? = some '0' ∧ Numeral.lowerDigits[0]? = some '0' := by decide
  have hone : Numeral.upperDigits[1]? = some '1' ∧ Numeral.lowerDigits[1]? = some '1' := by decide
  obtain rfl | rfl : n = 0 ∨ n = 1 := by omega
  · rw [Numeral.IsDigitOf, hzero.1, hzero.2, or_self] at hdigit
    exact .inl (Option.some.inj hdigit).symm
  · rw [Numeral.IsDigitOf, hone.1, hone.2, or_self] at hdigit
    exact .inr (Option.some.inj hdigit).symm

/-- Codes of hexadecimal digits are hexadecimal. -/
theorem FeedCode.hexadecimal (h : FeedCode 16 2 v) : v.all (Numeral.isDigit 16) = true :=
  ((Codec.Ascii.isCode_iff (by decide)).1 h.isCode).1

theorem not_feedCode_nil {size : Nat} (hsize : 0 < size) : ¬ FeedCode radix size [] := by
  rintro ⟨_, precedes, group, follows, hwhole, _, hlength, _⟩
  have hgroup : group = [] := by simp_all
  rw [hgroup] at hlength
  exact Nat.ne_of_lt hsize hlength

/-- The readings of a value have a line feed exactly if one is read from it. -/
theorem feed_mem_verdict_iff (hv : Text.trim v = v) :
    (∃ reading ∈ (verdict v).2, '\n' ∈ reading.2.apply v) ↔ ReadsFeed v := by
  have hall : (v.all fun c => c = '0' || c = '1') = true ↔ ∀ c ∈ v, c = '0' ∨ c = '1' := by
    simp
  unfold verdict
  split
  · rename_i hbinary
    rw [hall] at hbinary
    rw [feed_mem_binaryReadings_iff hv]
    exact ⟨.inl, fun h => h.resolve_right fun hhex => hhex.1 hbinary⟩
  · rename_i hbinary
    rw [hall] at hbinary
    have hno : ¬ FeedCode 2 8 v := fun hfeed => hbinary hfeed.binary
    split
    · rw [feed_mem_hexReadings_iff hv]
      simp only [ReadsFeed, hno, hbinary, false_or, not_false_eq_true, true_and]
    · rename_i hhex
      have hnoHex : ¬ FeedCode 16 2 v := fun hfeed => hhex hfeed.hexadecimal
      simp [ReadsFeed, hno, hnoHex]

/-- A report has an entry with a line feed exactly if it reads one from its value. -/
theorem feed_mem_report_iff (hinput : '\n' ∉ input) :
    (∃ entry ∈ identificationReport input, '\n' ∈ entry) ↔ ReadsFeed (Text.trim input) := by
  by_cases hempty : Text.trim input = []
  · rw [report_eq_nil_iff.2 hempty, hempty]
    simp [ReadsFeed, not_feedCode_nil]
  · have hv : '\n' ∉ Text.trim input := fun hmem => hinput ((Text.trim_infix input).subset hmem)
    have hverdict : '\n' ∉ (verdict (Text.trim input)).1 ∧
        ∀ reading ∈ (verdict (Text.trim input)).2, '\n' ∉ reading.1 := by
      unfold verdict
      split
      · decide
      · split <;> decide
    rw [← feed_mem_verdict_iff (Text.trim_trim input), ← feed_mem_readings_iff hv hverdict.2,
      report_of_trim_ne_nil hempty]
    simp [hv, hverdict.1]

theorem Device.flatMap_chunk (lines : List Text) :
    lines.flatMap chunk = Text.utf8 (Text.unlines lines) := by
  rw [Text.utf8, Text.unlines, List.flatMap_assoc]
  rfl

/-- As many line feeds are emitted as there are lines, and those that the lines hold. -/
theorem Device.count_chunks (lines : List Text) :
    (lines.flatMap chunk).count 10 = lines.length + lines.flatten.count '\n' := by
  induction lines with
  | nil => rfl
  | cons line lines ih =>
    have hline : (chunk line).count 10 = line.count '\n' + 1 := by
      rw [chunk, Text.count_utf8, List.count_append, List.count_singleton_self]
    rw [List.flatMap_cons, List.count_append, ih, hline, List.flatten_cons, List.count_append,
      List.length_cons]
    omega

/-- A command that asks for a report writes its entries on a device without limits. -/
theorem Engine.act_identify {setting : Setting Device} {s : State Device} {value : Operand}
    (hsink : setting.sink = Device.sink) (hroom : s.out.room = none)
    (hflushes : s.out.flushes = none) :
    (act setting (some (.identify value)) s).1 = .proceed ∧
      (act setting (some (.identify value)) s).2.out.contents
        = s.out.contents ++
          (setting.converter.identify (s.store.resolve value)).flatMap Device.chunk := by
  have hcontents := (Device.emitAll_unlimited
    (setting.converter.identify (s.store.resolve value)) hroom hflushes).1
  have hact : act setting (some (.identify value)) s
      = print setting (setting.converter.identify (s.store.resolve value)) s := rfl
  have hemit := (Device.neverFails_unlimited hroom hflushes).emitAll_eq
    (setting.converter.identify (s.store.resolve value))
  rw [← hsink] at hcontents hemit
  rw [hact, print, hemit]
  exact ⟨rfl, hcontents⟩

/-- A report has one entry for each line that it prints, unless it reads a line feed from its value:
on a value without a line feed, it has an entry with one exactly if the digits of the value are
codes of characters and one of them is that of a line feed. A command that asks for the report
prints its entries and a line feed after each, and so prints as many lines as the report has entries
exactly if no line feed is read from the value. -/
theorem report_entries_are_lines_iff (input : Text) (hinput : '\n' ∉ input) :
    let report := Converter.standard.identify input
    ((∀ entry ∈ report, '\n' ∉ entry) ↔ ¬ ReadsFeed (Text.trim input)) ∧
    ∀ (setting : Engine.Setting Device) (s : Engine.State Device) (value : Operand),
      setting.converter = Converter.standard → setting.sink = Device.sink →
      s.out.room = none → s.out.flushes = none → s.store.resolve value = input →
      (Engine.act setting (some (.identify value)) s).1 = .proceed ∧
      ∃ written, (Engine.act setting (some (.identify value)) s).2.out.contents
          = s.out.contents ++ written ∧
        written = Text.utf8 (Text.unlines report) ∧
        written.count 10 = report.length + report.flatten.count '\n' ∧
        (written.count 10 = report.length ↔ ¬ ReadsFeed (Text.trim input)) := by
  intro report
  have hentries : (∀ entry ∈ report, '\n' ∉ entry) ↔ ¬ ReadsFeed (Text.trim input) := by
    rw [← feed_mem_report_iff hinput]
    push Not
    exact Iff.rfl
  refine ⟨hentries, ?_⟩
  intro setting s value hconverter hsink hroom hflushes hvalue
  obtain ⟨hproceed, hcontents⟩ := Engine.act_identify hsink hroom hflushes
  rw [hconverter, hvalue] at hcontents
  have hcount := Device.count_chunks report
  refine ⟨hproceed, _, hcontents, Device.flatMap_chunk report, hcount, ?_⟩
  have hnone : report.flatten.count '\n' = 0 ↔ ∀ entry ∈ report, '\n' ∉ entry := by
    rw [List.count_eq_zero, List.mem_flatten]
    push Not
    exact Iff.rfl
  rw [hcount, ← hentries, ← hnone]
  omega

/-- The codes of two letters, with blanks around them. -/
def letterCodes : Text := " 6162\t".toList

theorem letterCodes_entries_are_lines :
    '\n' ∉ letterCodes ∧ ¬ ReadsFeed "6162".toList ∧
      ∃ written, (Engine.act (({ script := chant } : Session).setting Device.sink)
          (some (.identify (.literal letterCodes))) ⟨{}, {}⟩).2.out.contents = [] ++ written ∧
        written.count 10 = (Converter.standard.identify letterCodes).length := by
  have hinput : '\n' ∉ letterCodes := by decide
  have htrim : Text.trim letterCodes = "6162".toList := by decide
  have hentries : ∀ entry ∈ Converter.standard.identify letterCodes, '\n' ∉ entry := by
    decide +kernel
  obtain ⟨hiff, hact⟩ := report_entries_are_lines_iff letterCodes hinput
  rw [htrim] at hiff hact
  obtain ⟨_, written, hcontents, _, _, hlines⟩ :=
    hact (({ script := chant } : Session).setting Device.sink) ⟨{}, {}⟩ (.literal letterCodes)
      rfl rfl rfl rfl rfl
  exact ⟨hinput, hiff.1 hentries, written, hcontents, hlines.2 (hiff.1 hentries)⟩

/-- The code of a line feed gives an entry that prints as two lines. -/
theorem feed_code_splits_entry :
    '\n' ∉ "0A".toList ∧
      Converter.standard.identify "0A".toList
        = ["Trying to figure out what 0A is ...".toList, "It might be hexadecimal.".toList,
          "::hex->dec[0A] = 10".toList, "::hex->ascii[0A] = \n".toList] ∧
      (gathered ((Script.ofLines ["::start[main]".toList, "::wtf[0A]".toList]).run
        Sink.gather []).2).count '\n' = 5 := by
  decide +kernel

end LineScript
