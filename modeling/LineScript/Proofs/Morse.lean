import LineScript.Operator
import Mathlib.Data.List.Basic

/-!
Morse code and text. Both sides are a message, a list of words of letters and digits, between
separators of their own. Main statement: going over to the other side and back gives the message in
its plain form, and a plain form changes nothing of what it stands for.
-/

namespace LineScript

namespace Text

variable {sep x : Char} {parts : List Text}

theorem mem_join (h : x ∈ join [sep] parts) : x = sep ∨ ∃ part ∈ parts, x ∈ part := by
  induction parts with
  | nil => cases h
  | cons part rest ih =>
    cases rest with
    | nil =>
      rw [join, List.intercalate_singleton] at h
      exact .inr ⟨part, List.mem_cons_self, h⟩
    | cons next more =>
      rw [join, List.intercalate_cons_cons, List.mem_append, List.mem_append] at h
      rcases h with (h | h) | h
      · exact .inr ⟨part, List.mem_cons_self, h⟩
      · exact .inl (List.mem_singleton.1 h)
      · rcases ih h with h | ⟨later, hlater, h⟩
        · exact .inl h
        · exact .inr ⟨later, List.mem_cons_of_mem part hlater, h⟩

theorem join_eq_nil_iff (hparts : ∀ part ∈ parts, part ≠ []) :
    join [sep] parts = [] ↔ parts = [] := by
  cases parts with
  | nil => simp [join]
  | cons part rest =>
    have hpart := hparts part List.mem_cons_self
    cases rest <;> simp [join, List.intercalate_cons_cons, hpart]

/-- Words without blanks in them are found again between the spaces. -/
theorem words_join (hparts : ∀ part ∈ parts, part ≠ [])
    (hblank : ∀ part ∈ parts, ∀ c ∈ part, isBlank c = false) :
    words (join [' '] parts) = parts := by
  have hspace : isBlank ' ' = true := by decide
  induction parts with
  | nil => simp [join, words, List.splitOnP_nil]
  | cons part rest ih =>
    obtain ⟨hne, hrest⟩ := List.forall_mem_cons.1 hparts
    obtain ⟨hpart, hlater⟩ := List.forall_mem_cons.1 hblank
    cases rest with
    | nil =>
      rw [join, List.intercalate_singleton, words, List.splitOnP_eq_singleton hpart]
      simp [hne]
    | cons next more =>
      have htail : words (join [' '] (next :: more)) = next :: more := ih hrest hlater
      rw [join, List.intercalate_cons_cons, List.append_assoc, List.singleton_append, words,
        List.splitOnP_append_cons_of_forall_mem hpart ' ' hspace,
        List.filter_cons_of_pos (by simpa)]
      exact congrArg (part :: ·) htail

/-- Dropping what is empty, parts without the separator are found again between the separators. -/
theorem filter_map_splitOn_join {f : Text → Text} (hf : f [] = [])
    (hsep : ∀ part ∈ parts, sep ∉ part) (hparts : ∀ part ∈ parts, f part ≠ []) :
    (((join [sep] parts).splitOn sep).map f).filter (· ≠ []) = parts.map f := by
  by_cases hne : parts = []
  · subst hne
    simp [join, List.splitOn_nil, hf]
  · rw [join, List.splitOn_intercalate sep hsep hne, List.filter_eq_self]
    intro part hpart
    obtain ⟨origin, horigin, rfl⟩ := List.mem_map.1 hpart
    simpa using hparts origin horigin

end Text

namespace Codec.Morse

variable {c : Char} {code word : Text}

/-- The letters and digits that have a code. -/
def signs : Text := "ABCDEFGHIJKLMNOPQRSTUVWXYZ0123456789".toList

def isSign (c : Char) : Bool := signs.contains c

/-- Is one of the codes of the table. -/
def isCode (code : Text) : Bool := (table.map Prod.snd).contains code

theorem code?_eq_some : code? c = some code ↔ (c, code) ∈ table := by
  have hall : ∀ entry ∈ table, code? entry.1 = some entry.2 := by decide +kernel
  constructor
  · intro h
    obtain ⟨before, after, htable, _⟩ := List.lookup_eq_some_iff.1 h
    rw [htable]
    simp
  · intro h
    exact hall (c, code) h

theorem char?_eq_some : char? code = some c ↔ (c, code) ∈ table := by
  have hall : ∀ entry ∈ table, char? entry.2 = some entry.1 := by decide +kernel
  constructor
  · intro h
    obtain ⟨⟨letter, known⟩, hfind, hletter⟩ := Option.map_eq_some_iff.1 h
    have hknown : known = code := by simpa using List.find?_some hfind
    cases hletter
    rw [← hknown]
    exact List.mem_of_find?_eq_some hfind
  · intro h
    exact hall (c, code) h

theorem isSome_code? (c : Char) : (code? c).isSome = isSign c := by
  have hsigns : signs.all (fun c => (code? c).isSome) = true := by decide +kernel
  have htable : ∀ entry ∈ table, isSign entry.1 = true := by decide +kernel
  rw [Bool.eq_iff_iff]
  constructor
  · intro h
    obtain ⟨code, hcode⟩ := Option.isSome_iff_exists.1 h
    exact htable (c, code) (code?_eq_some.1 hcode)
  · intro h
    exact List.all_eq_true.1 hsigns c (by simpa [isSign] using h)

theorem isSome_char? (code : Text) : (char? code).isSome = isCode code := by
  rw [Bool.eq_iff_iff, Option.isSome_iff_exists]
  simp [isCode, char?_eq_some]

/-- No code is empty, and none has a separator in it. -/
theorem code?_plain (h : code? c = some code) :
    code ≠ [] ∧ ∀ x ∈ code, isBlank x = false ∧ x ≠ '/' := by
  have hall : ∀ entry ∈ table,
      entry.2 ≠ [] ∧ entry.2.all (fun x => !isBlank x && x ≠ '/') = true := by
    decide +kernel
  simpa using hall (c, code) (code?_eq_some.1 h)

theorem char?_code? (c : Char) : (code? c).bind char? = Option.guard isSign c := by
  rw [Option.guard, ← isSome_code?]
  cases h : code? c with
  | none => rfl
  | some code => exact char?_eq_some.2 (code?_eq_some.1 h)

theorem code?_char? (code : Text) : (char? code).bind code? = Option.guard isCode code := by
  rw [Option.guard, ← isSome_char?]
  cases h : char? code with
  | none => rfl
  | some c => exact code?_eq_some.2 (char?_eq_some.1 h)

theorem filterMap_char?_code? (word : Text) :
    (word.filterMap code?).filterMap char? = word.filter isSign := by
  rw [List.filterMap_filterMap, funext char?_code?, List.filterMap_eq_filter]

theorem filterMap_code?_char? (codes : List Text) :
    (codes.filterMap char?).filterMap code? = codes.filter isCode := by
  rw [List.filterMap_filterMap, funext code?_char?, List.filterMap_eq_filter]

theorem filterMap_code?_filter (word : Text) :
    (word.filter isSign).filterMap code? = word.filterMap code? := by
  rw [List.filterMap_filter]
  refine List.filterMap_congr ?_
  intro c _
  rw [← isSome_code?]
  cases code? c <;> rfl

theorem filterMap_code?_eq_nil_iff (word : Text) :
    word.filterMap code? = [] ↔ word.filter isSign = [] := by
  rw [List.filterMap_eq_nil_iff, List.filter_eq_nil_iff]
  refine forall₂_congr fun c _ => ?_
  rw [← isSome_code?, Option.not_isSome_iff_eq_none]

theorem isSign_of_mem_read {codes : List Text} (h : c ∈ codes.filterMap char?) :
    isSign c = true := by
  obtain ⟨code, _, hcode⟩ := List.mem_filterMap.1 h
  rw [← isSome_code?, code?_eq_some.2 (char?_eq_some.1 hcode)]
  rfl

/-- The codes of the letters and digits of a word, with a space between neighbours. -/
def spell (word : Text) : Text := Text.join [' '] (word.filterMap code?)

theorem mem_codes (h : code ∈ word.filterMap code?) :
    code ≠ [] ∧ ∀ x ∈ code, isBlank x = false ∧ x ≠ '/' := by
  obtain ⟨c, _, hc⟩ := List.mem_filterMap.1 h
  exact code?_plain hc

theorem spell_filter (word : Text) : spell (word.filter isSign) = spell word := by
  rw [spell, filterMap_code?_filter, spell]

theorem spell_eq_nil_iff (word : Text) : spell word = [] ↔ word.filter isSign = [] := by
  rw [spell, Text.join_eq_nil_iff fun _ h => (mem_codes h).1, filterMap_code?_eq_nil_iff]

theorem slash_not_mem_spell (word : Text) : '/' ∉ spell word := by
  intro h
  rcases Text.mem_join h with h | ⟨code, hcode, h⟩
  · cases h
  · exact ((mem_codes hcode).2 _ h).2 rfl

/-- Reading the codes of a word gives back its letters and digits. -/
theorem read_spell (word : Text) :
    (Text.words (spell word)).filterMap char? = word.filter isSign := by
  have hwords : Text.words (spell word) = word.filterMap code? :=
    Text.words_join (fun _ h => (mem_codes h).1) (fun _ h x hx => ((mem_codes h).2 x hx).1)
  rw [hwords, filterMap_char?_code?]

/-- The letters and digits of the words of an upper-case text. -/
def plainWords (s : Text) : List Text :=
  ((s.splitOn ' ').map fun word => word.filter isSign).filter (· ≠ [])

/-- The letters and digits of the words of a text in Morse code. -/
def readWords (s : Text) : List Text :=
  ((s.splitOn '/').map fun signal => (Text.words signal).filterMap char?).filter (· ≠ [])

/-- Words that can be a message: none is empty, and they have nothing but letters and digits. -/
def IsMessage (message : List Text) : Prop :=
  ∀ word ∈ message, word ≠ [] ∧ ∀ c ∈ word, isSign c = true

/-- A message in Morse code. -/
def write (message : List Text) : Text := Text.join ['/'] (message.map spell)

variable {message : List Text}

theorem isMessage_plainWords (s : Text) : IsMessage (plainWords s) := by
  intro word hword
  obtain ⟨hmem, hne⟩ := List.mem_filter.1 hword
  obtain ⟨piece, _, rfl⟩ := List.mem_map.1 hmem
  exact ⟨by simpa using hne, fun c hc => (List.mem_filter.1 hc).2⟩

theorem isMessage_readWords (s : Text) : IsMessage (readWords s) := by
  intro word hword
  obtain ⟨hmem, hne⟩ := List.mem_filter.1 hword
  obtain ⟨signal, _, rfl⟩ := List.mem_map.1 hmem
  exact ⟨by simpa using hne, fun c hc => isSign_of_mem_read hc⟩

theorem IsMessage.filter_eq (h : IsMessage message) (hword : word ∈ message) :
    word.filter isSign = word :=
  List.filter_eq_self.2 (h word hword).2

theorem IsMessage.filter_ne_nil (h : IsMessage message) (hword : word ∈ message) :
    word.filter isSign ≠ [] := by
  rw [h.filter_eq hword]
  exact (h word hword).1

theorem IsMessage.map_eq {f : Text → Text} (h : IsMessage message)
    (hf : ∀ word, f word = word.filter isSign) : message.map f = message := by
  have hid : ∀ word ∈ message, f word = id word := fun word hword =>
    (hf word).trans (h.filter_eq hword)
  rw [List.map_congr_left hid, List.map_id]

theorem plainWords_join (h : IsMessage message) :
    plainWords (Text.join [' '] message) = message := by
  have hspace : ∀ word ∈ message, ' ' ∉ word := by
    intro word hword hmem
    have hno : isSign ' ' = false := by decide
    rw [(h word hword).2 ' ' hmem] at hno
    cases hno
  rw [plainWords, Text.filter_map_splitOn_join rfl hspace fun _ => h.filter_ne_nil]
  exact h.map_eq fun _ => rfl

theorem readWords_write (h : IsMessage message) : readWords (write message) = message := by
  have hslash : ∀ signal ∈ message.map spell, '/' ∉ signal := by
    intro signal hsignal
    obtain ⟨word, _, rfl⟩ := List.mem_map.1 hsignal
    exact slash_not_mem_spell word
  have hne : ∀ signal ∈ message.map spell, (Text.words signal).filterMap char? ≠ [] := by
    intro signal hsignal
    obtain ⟨word, hword, rfl⟩ := List.mem_map.1 hsignal
    rw [read_spell]
    exact h.filter_ne_nil hword
  rw [readWords, write, Text.filter_map_splitOn_join (by decide) hslash hne, List.map_map]
  exact h.map_eq read_spell

theorem encodeWith_eq_write (upper : Text → Text) (s : Text) :
    encodeWith upper s = write (plainWords (upper s)) := by
  have hempty (word : Text) : (spell word ≠ []) = (word.filter isSign ≠ []) := by
    rw [ne_eq, spell_eq_nil_iff]
  have hspell : spell ∘ List.filter isSign = spell := funext spell_filter
  rw [encodeWith, write, plainWords, List.filter_map, List.filter_map, List.map_map, hspell]
  simp only [Function.comp_def, ← hempty]
  rfl

theorem decode_eq_join (m : Text) : decode m = Text.join [' '] (readWords m) := rfl

/-- Text with one space between words that are nothing but letters and digits, in upper case. -/
def normalText (upper : Text → Text) (s : Text) : Text := Text.join [' '] (plainWords (upper s))

/-- Morse code with one separator between neighbours and nothing that is no code. -/
def normalMorse (m : Text) : Text :=
  let signals := (m.splitOn '/').map fun signal =>
    Text.join [' '] ((Text.words signal).filter isCode)
  Text.join ['/'] (signals.filter (· ≠ []))

theorem normalMorse_eq_write (m : Text) : normalMorse m = write (readWords m) := by
  have hspell : (fun signal => Text.join [' '] ((Text.words signal).filter isCode))
      = spell ∘ fun signal => (Text.words signal).filterMap char? := by
    funext signal
    rw [Function.comp_apply, spell, filterMap_code?_char?]
  have hempty (signal : Text) : (spell ((Text.words signal).filterMap char?) ≠ [])
      = ((Text.words signal).filterMap char? ≠ []) := by
    rw [ne_eq, spell_eq_nil_iff, List.filter_eq_self.2 fun _ => isSign_of_mem_read]
  rw [normalMorse, write, readWords, hspell, List.filter_map, List.filter_map, List.map_map]
  simp only [Function.comp_def, hempty]

/-- Leaves texts of the letters, the digits and the space as they are. -/
def FixesSigns (upper : Text → Text) : Prop :=
  ∀ s, (∀ c ∈ s, isSign c = true ∨ c = ' ') → upper s = s

theorem fixesSigns_upper : FixesSigns Text.upper := by
  have hall : (' ' :: signs).all (fun c => upperChar c = [c]) = true := by decide +kernel
  intro s hs
  induction s with
  | nil => rfl
  | cons c rest ih =>
    obtain ⟨hc, hrest⟩ := List.forall_mem_cons.1 hs
    have hchar : upperChar c = [c] := by
      refine of_decide_eq_true (List.all_eq_true.1 hall c ?_)
      rcases hc with hc | rfl
      · exact List.mem_cons_of_mem _ (by simpa [isSign] using hc)
      · exact List.mem_cons_self
    rw [Text.upper, List.flatMap_cons, hchar]
    exact congrArg (c :: ·) (ih hrest)

theorem FixesSigns.upper_join {upper : Text → Text} (h : FixesSigns upper)
    (hmessage : IsMessage message) : upper (Text.join [' '] message) = Text.join [' '] message := by
  refine h _ ?_
  intro c hc
  rcases Text.mem_join hc with hc | ⟨word, hword, hc⟩
  · exact .inr hc
  · exact .inl ((hmessage word hword).2 c hc)

/-- Encoding and decoding are inverse up to the plain forms of text and of code, and neither tells a
plain form from what it is the form of. -/
structure RoundTrips (upper encode decode : Text → Text) : Prop where
  text : ∀ s, decode (encode s) = normalText upper s
  encode_normal : ∀ s, encode (normalText upper s) = encode s
  code : ∀ m, encode (decode m) = normalMorse m
  decode_normal : ∀ m, decode (normalMorse m) = decode m

/-- Both ways lead over one message, which each side gives back from its own form of it. -/
theorem roundTrips_encodeWith {upper : Text → Text} (h : FixesSigns upper) :
    RoundTrips upper (encodeWith upper) decode where
  text := by
    intro s
    rw [encodeWith_eq_write, decode_eq_join, readWords_write (isMessage_plainWords _), normalText]
  encode_normal := by
    intro s
    have hmessage := isMessage_plainWords (upper s)
    rw [encodeWith_eq_write, normalText, h.upper_join hmessage, plainWords_join hmessage,
      encodeWith_eq_write]
  code := by
    intro m
    have hmessage := isMessage_readWords m
    rw [encodeWith_eq_write, decode_eq_join, h.upper_join hmessage, plainWords_join hmessage,
      normalMorse_eq_write]
  decode_normal := by
    intro m
    rw [normalMorse_eq_write, decode_eq_join, readWords_write (isMessage_readWords m),
      decode_eq_join]

end Codec.Morse

/-- Morse code and text are inverse up to their plain forms, for every text; nothing is asked of
upper case but that it leaves letters, digits and spaces as they are. -/
theorem morse_and_text_are_inverse :
    Codec.Morse.RoundTrips Text.upper Operator.textToMorse.apply Operator.morseToText.apply ∧
      ∀ upper, Codec.Morse.FixesSigns upper →
        Codec.Morse.RoundTrips upper (Codec.Morse.encodeWith upper) Codec.Morse.decode := by
  refine ⟨Codec.Morse.roundTrips_encodeWith Codec.Morse.fixesSigns_upper, ?_⟩
  intro upper hupper
  exact Codec.Morse.roundTrips_encodeWith hupper

theorem morse_and_text_at_ligature :
    Codec.Morse.FixesSigns Text.upper ∧
      Operator.morseToText.apply (Operator.textToMorse.apply " straße  ﬁn/1! ".toList)
        = "STRASSE FIN1".toList ∧
      Operator.textToMorse.apply (Operator.morseToText.apply "/...  x\t--- / ? /-".toList)
        = "... ---/-".toList := by
  obtain ⟨_, hany⟩ := morse_and_text_are_inverse
  have htrips := hany Text.upper Codec.Morse.fixesSigns_upper
  have htext : Codec.Morse.normalText Text.upper " straße  ﬁn/1! ".toList
      = "STRASSE FIN1".toList := by decide +kernel
  have hcode : Codec.Morse.normalMorse "/...  x\t--- / ? /-".toList = "... ---/-".toList := by
    decide +kernel
  exact ⟨Codec.Morse.fixesSigns_upper, (htrips.text _).trans htext, (htrips.code _).trans hcode⟩

end LineScript
