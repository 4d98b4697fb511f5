import LineScript.Proofs.SourceLines
import LineScript.Trial.File
import Mathlib.Data.List.TakeDrop

/-!
How a test file is taken apart. Main statement: it is cut at its first line and at the next fence
after it, and nowhere else; the header and the script are just the text between and behind these
lines.
-/

namespace LineScript

namespace Text

variable {s t precedes line follows body rest : Text} {xs ys : List Text}

/-- Ends where a line ends, if it does not end at once. -/
def EndsLine (s : Text) : Prop := s = [] ∨ s.getLast? = some '\n'

/-- The line stands there in the text: it begins at the front or after a line feed, and goes up to
the next line feed, or to the end of the text if there is none. -/
structure LineAt (s precedes line follows : Text) : Prop where
  whole : s = precedes ++ line ++ follows
  begins : EndsLine precedes
  ends : ∃ body, '\n' ∉ body ∧
    (line = body ++ ['\n'] ∨ line = body ∧ body ≠ [] ∧ follows = [])

theorem endsLine_line : EndsLine (body ++ '\n' :: rest) ↔ EndsLine rest := by
  cases rest with
  | nil => simp [EndsLine]
  | cons c rest => simp [EndsLine, List.getLast?_cons]

/-- Behind whole lines, text is cut as if it stood alone. -/
theorem pieces_append (t : Text) (h : EndsLine s) : pieces (s ++ t) = pieces s ++ pieces t := by
  induction s using lines_induction with
  | nil => rfl
  | last body hne hbody =>
    rcases h with rfl | hlast
    · exact (hne rfl).elim
    · exact (hbody (List.mem_of_getLast? hlast)).elim
  | line body rest hbody ih =>
    rw [List.append_assoc, List.cons_append, pieces_line _ hbody, pieces_line rest hbody,
      ih (endsLine_line.1 h), List.cons_append]

/-- Pieces of a text are lines there, and the pieces before and behind one are those of the text
before and behind it. -/
theorem lineAt_of_pieces (xs : List Text) (h : pieces s = xs ++ line :: ys) :
    LineAt s xs.flatten line ys.flatten ∧ pieces xs.flatten = xs ∧ pieces ys.flatten = ys := by
  induction s using lines_induction generalizing xs with
  | nil => simp [pieces] at h
  | last body hne hbody =>
    rw [pieces_last hne hbody] at h
    cases xs with
    | nil =>
      obtain ⟨rfl, rfl⟩ := List.cons.inj h
      exact ⟨⟨by simp, .inl rfl, body, hbody, .inr ⟨rfl, hne, rfl⟩⟩, rfl, rfl⟩
    | cons x xs => simp at h
  | line body rest hbody ih =>
    rw [pieces_line rest hbody] at h
    cases xs with
    | nil =>
      obtain ⟨rfl, rfl⟩ := List.cons.inj h
      rw [flatten_pieces]
      exact ⟨⟨by simp, .inl rfl, body, hbody, .inl rfl⟩, rfl, rfl⟩
    | cons x xs =>
      obtain ⟨rfl, hrest⟩ := List.cons.inj h
      obtain ⟨⟨hwhole, hbegins, hends⟩, hxs, hys⟩ := ih xs hrest
      have hflatten : ((body ++ ['\n']) :: xs).flatten = body ++ '\n' :: xs.flatten := by simp
      rw [hflatten]
      refine ⟨⟨?_, endsLine_line.2 hbegins, hends⟩, ?_, hys⟩
      · rw [hwhole]
        simp
      · rw [pieces_line _ hbody, hxs]

theorem lineAt_iff :
    LineAt s precedes line follows ↔ pieces s = pieces precedes ++ line :: pieces follows := by
  constructor
  · rintro ⟨rfl, hbegins, body, hbody, rfl | ⟨rfl, hne, rfl⟩⟩
    · rw [List.append_assoc, pieces_append _ hbegins, List.append_assoc]
      exact congrArg _ (pieces_line follows hbody)
    · rw [List.append_nil, pieces_append _ hbegins, pieces_last hne hbody]
      rfl
  · intro h
    have hline := (lineAt_of_pieces _ h).1
    rwa [flatten_pieces, flatten_pieces] at hline

theorem lineAt_front_iff : LineAt s [] line follows ↔ pieces s = line :: pieces follows :=
  lineAt_iff

theorem forall_lineAt_iff {P : Text → Prop} :
    (∀ precedes line follows, LineAt s precedes line follows → P line) ↔
      ∀ line ∈ pieces s, P line := by
  constructor
  · intro h line hline
    obtain ⟨xs, ys, hpieces⟩ := List.append_of_mem hline
    exact h _ _ _ (lineAt_of_pieces xs hpieces).1
  · intro h precedes line follows hline
    refine h line ?_
    rw [lineAt_iff.1 hline]
    simp

theorem pieces_eq_nil_iff : pieces s = [] ↔ s = [] := by
  constructor
  · intro h
    rw [← flatten_pieces s, h]
    rfl
  · rintro rfl
    rfl

theorem pieces_injective (h : pieces s = pieces t) : s = t := by
  rw [← flatten_pieces s, h, flatten_pieces]

end Text

namespace Trial

open Text (LineAt EndsLine pieces)

variable {s content opening header closing source : Text} {xs ys : List Text}

/-- The text is a fence, a header, a fence and a script, where both fences are lines of the text and
no line of the header is one. -/
structure Fenced (s opening header closing source : Text) : Prop where
  opens : LineAt s [] opening (header ++ closing ++ source)
  closes : LineAt s (opening ++ header) closing source
  isFence_opening : isFence opening = true
  isFence_closing : isFence closing = true
  unfenced : ∀ precedes line follows, LineAt header precedes line follows → isFence line = false

theorem lineAt_opening (h : LineAt s [] opening (header ++ closing ++ source))
    (hclosing : isFence closing = true) : LineAt (opening ++ header) [] opening header := by
  obtain ⟨body, hbody, hline | ⟨_, _, hempty⟩⟩ := h.ends
  · exact ⟨rfl, .inl rfl, body, hbody, .inl hline⟩
  · -- Without a line feed the opening line would be all of the text, but the closing fence follows.
    have hnone : closing = [] := by simp_all
    rw [hnone] at hclosing
    cases hclosing

theorem fenced_iff :
    Fenced s opening header closing source ↔
      pieces s = opening :: (pieces header ++ closing :: pieces source) ∧
        isFence opening = true ∧ isFence closing = true ∧
        ∀ line ∈ pieces header, isFence line = false := by
  constructor
  · rintro ⟨hopens, hcloses, hopening, hclosing, hheader⟩
    have hfront := Text.lineAt_front_iff.1 (lineAt_opening hopens hclosing)
    refine ⟨?_, hopening, hclosing, Text.forall_lineAt_iff.1 hheader⟩
    rw [Text.lineAt_iff.1 hcloses, hfront, List.cons_append]
  · rintro ⟨hs, hopening, hclosing, hheader⟩
    have hopens := (Text.lineAt_of_pieces [] hs).1
    have hcloses := (Text.lineAt_of_pieces (opening :: pieces header) hs).1
    refine ⟨?_, ?_, hopening, hclosing, Text.forall_lineAt_iff.2 hheader⟩
    · simpa [Text.flatten_pieces] using hopens
    · simpa [Text.flatten_pieces] using hcloses

theorem fenced_of_pieces (h : pieces s = opening :: (xs ++ closing :: ys))
    (hopening : isFence opening = true) (hclosing : isFence closing = true)
    (hxs : ∀ line ∈ xs, isFence line = false) :
    Fenced s opening xs.flatten closing ys.flatten := by
  obtain ⟨_, _, hrest⟩ := Text.lineAt_of_pieces [] h
  obtain ⟨_, hheader, hsource⟩ := Text.lineAt_of_pieces xs hrest
  rw [fenced_iff, hheader, hsource]
  exact ⟨h, hopening, hclosing, hxs⟩

theorem span_isFence (ys : List Text) (hxs : ∀ line ∈ xs, isFence line = false)
    (hclosing : isFence closing = true) :
    (xs ++ closing :: ys).span (! isFence ·) = (xs, closing :: ys) := by
  have hplain : ∀ line ∈ xs, (! isFence line) = true := by simpa using hxs
  rw [List.span_eq_takeWhile_dropWhile, List.takeWhile_append_of_pos hplain,
    List.dropWhile_append_of_pos hplain, List.takeWhile_cons_of_neg (by simp [hclosing]),
    List.dropWhile_cons_of_neg (by simp [hclosing]), List.append_nil]

/-- Text can be taken apart at its fences in one way only. -/
theorem Fenced.unique {opening' header' closing' source' : Text}
    (h : Fenced s opening header closing source)
    (h' : Fenced s opening' header' closing' source') :
    opening' = opening ∧ header' = header ∧ closing' = closing ∧ source' = source := by
  obtain ⟨hs, _, hclosing, hheader⟩ := fenced_iff.1 h
  obtain ⟨hs', _, hclosing', hheader'⟩ := fenced_iff.1 h'
  rw [hs] at hs'
  obtain ⟨hopening, hrest⟩ := List.cons.inj hs'
  -- Either header is what stands before the first fence behind the opening line.
  have hspan := span_isFence (pieces source) hheader hclosing
  rw [hrest, span_isFence _ hheader' hclosing'] at hspan
  obtain ⟨hpieces, hbehind⟩ := Prod.mk.inj hspan
  obtain ⟨hclosings, hsources⟩ := List.cons.inj hbehind
  exact ⟨hopening.symm, Text.pieces_injective hpieces, hclosings, Text.pieces_injective hsources⟩

/-- The first line of the text is a fence. -/
def Opens (s : Text) : Prop := ∃ line follows, LineAt s [] line follows ∧ isFence line = true

/-- Some line of the text after the first is a fence. -/
def Closes (s : Text) : Prop :=
  ∃ precedes line follows, LineAt s precedes line follows ∧ precedes ≠ [] ∧ isFence line = true

theorem Fenced.marks (h : Fenced s opening header closing source) : Opens s ∧ Closes s := by
  refine ⟨⟨_, _, h.opens, h.isFence_opening⟩, _, _, _, h.closes, ?_, h.isFence_closing⟩
  intro hnone
  have hopening := h.isFence_opening
  rw [(List.append_eq_nil_iff.1 hnone).1] at hopening
  cases hopening

theorem opens_iff : Opens s ↔ ∃ first ∈ (pieces s).head?, isFence first = true := by
  constructor
  · rintro ⟨line, follows, hline, hfence⟩
    rw [Text.lineAt_front_iff.1 hline]
    exact ⟨line, rfl, hfence⟩
  · rintro ⟨first, hfirst, hfence⟩
    obtain ⟨rest, hs⟩ := List.head?_eq_some_iff.1 hfirst
    exact ⟨first, _, (Text.lineAt_of_pieces [] hs).1, hfence⟩

theorem closes_iff : Closes s ↔ ∃ line ∈ (pieces s).tail, isFence line = true := by
  constructor
  · rintro ⟨precedes, line, follows, hline, hne, hfence⟩
    refine ⟨line, ?_, hfence⟩
    obtain ⟨first, rest, hprecedes⟩ :=
      List.exists_cons_of_ne_nil (mt Text.pieces_eq_nil_iff.1 hne)
    rw [Text.lineAt_iff.1 hline, hprecedes]
    simp
  · rintro ⟨line, hline, hfence⟩
    cases hs : pieces s with
    | nil =>
      rw [hs] at hline
      cases hline
    | cons first rest =>
      rw [hs] at hline
      obtain ⟨xs, ys, rfl⟩ := List.append_of_mem hline
      obtain ⟨hat, hxs, _⟩ := Text.lineAt_of_pieces (first :: xs) hs
      refine ⟨_, line, _, hat, ?_, hfence⟩
      intro hnone
      rw [hnone] at hxs
      cases hxs

/-- The text has no line, or its first line is another one. -/
theorem not_opens_iff :
    ¬ Opens s ↔ s = [] ∨ ∃ line follows, LineAt s [] line follows ∧ isFence line = false := by
  constructor
  · intro h
    cases hs : pieces s with
    | nil => exact .inl (Text.pieces_eq_nil_iff.1 hs)
    | cons first rest =>
      have hat := (Text.lineAt_of_pieces [] hs).1
      refine .inr ⟨first, _, hat, ?_⟩
      cases hfirst : isFence first with
      | false => rfl
      | true => exact (h ⟨first, _, hat, hfirst⟩).elim
  · rintro hs ⟨first, rest, hfirst, hfence⟩
    rw [Text.lineAt_front_iff] at hfirst
    rcases hs with rfl | ⟨line, follows, hline, hno⟩
    · cases hfirst
    · rw [Text.lineAt_front_iff.1 hline] at hfirst
      obtain ⟨rfl, _⟩ := List.cons.inj hfirst
      rw [hno] at hfence
      cases hfence

/-- What taking a test file apart can come to: its first line is no fence, or no later line is one,
or there are a header and a script. -/
theorem sections_cases (content : Text) :
    (sections content = .error .unopened ∧ ¬ Opens (unmarked content)) ∨
    (sections content = .error .unclosed ∧ Opens (unmarked content) ∧
      ¬ Closes (unmarked content)) ∨
    ∃ opening header closing source, Fenced (unmarked content) opening header closing source ∧
      sections content = .ok (header, source) := by
  rw [opens_iff, closes_iff]
  unfold sections
  cases hs : pieces (unmarked content) with
  | nil => exact .inl ⟨rfl, by simp⟩
  | cons first rest =>
    cases hfirst : isFence first with
    | false => exact .inl ⟨by simp [hfirst], by simp [hfirst]⟩
    | true =>
      cases hdrop : rest.dropWhile (! isFence ·) with
      | nil =>
        -- The lines behind the first were searched to their end.
        refine .inr (.inl ⟨?_, ⟨first, rfl, hfirst⟩, ?_⟩)
        · simp [hfirst, List.span_eq_takeWhile_dropWhile, hdrop]
        · simpa using List.dropWhile_eq_nil_iff.1 hdrop
      | cons closing source =>
        have hclosing : isFence closing = true := by
          have hhead := List.head?_dropWhile_not (! isFence ·) rest
          rw [hdrop] at hhead
          simpa using hhead
        have hheader : ∀ line ∈ rest.takeWhile (! isFence ·), isFence line = false := by
          intro line hline
          simpa using List.mem_takeWhile_imp hline
        have hpieces : pieces (unmarked content)
            = first :: (rest.takeWhile (! isFence ·) ++ closing :: source) := by
          rw [hs, ← hdrop, List.takeWhile_append_dropWhile]
        refine .inr (.inr ⟨first, _, closing, _,
          fenced_of_pieces hpieces hfirst hclosing hheader, ?_⟩)
        simp [hfirst, List.span_eq_takeWhile_dropWhile, hdrop]

theorem sections_unopened_iff :
    sections content = .error .unopened ↔ ¬ Opens (unmarked content) := by
  rcases sections_cases content with ⟨h, hno⟩ | ⟨h, hopens, _⟩ | ⟨_, _, _, _, hfenced, h⟩
  · simp [h, hno]
  · simp [h, hopens]
  · simp [h, hfenced.marks.1]

theorem sections_unclosed_iff :
    sections content = .error .unclosed ↔
      Opens (unmarked content) ∧ ¬ Closes (unmarked content) := by
  rcases sections_cases content with ⟨h, hno⟩ | ⟨h, hopens, hno⟩ | ⟨_, _, _, _, hfenced, h⟩
  · simp [h, hno]
  · simp [h, hopens, hno]
  · simp [h, hfenced.marks.2]

/-- Fenced text gives its header and its script. -/
theorem sections_of_fenced (h : Fenced (unmarked content) opening header closing source) :
    sections content = .ok (header, source) := by
  rcases sections_cases content with ⟨_, hno⟩ | ⟨_, _, hno⟩ | ⟨_, _, _, _, hfenced, hok⟩
  · exact (hno h.marks.1).elim
  · exact (hno h.marks.2).elim
  · obtain ⟨_, rfl, _, rfl⟩ := h.unique hfenced
    exact hok

theorem unmarked_mark (s : Text) : unmarked ('\uFEFF' :: s) = s := by
  simp [unmarked]

theorem unmarked_of_head? (h : s.head? ≠ some '\uFEFF') : unmarked s = s := by
  cases s with
  | nil => rfl
  | cons c rest =>
    have hc : ¬ '\uFEFF' = c := by
      rintro rfl
      exact h rfl
    simp [unmarked, hc]

theorem readWith_of_ok (decode : Decoder) (h : sections content = .ok (header, source)) :
    readWith decode content
      = match decode header with
        | .ok expected => .ok ⟨expected, source⟩
        | .error reason => .error (.badHeader reason) := by
  rw [readWith, h]
  rfl

/-- The header cannot make a file unopened or unclosed. -/
theorem readWith_eq_error_iff (decode : Decoder) {defect : Defect}
    (hdefect : ∀ reason, defect ≠ .badHeader reason) :
    readWith decode content = .error defect ↔ sections content = .error defect := by
  cases h : sections content with
  | error other =>
    have hread : readWith decode content = .error other := by
      rw [readWith, h]
      rfl
    simp [hread]
  | ok parts =>
    obtain ⟨header, source⟩ := parts
    rw [readWith_of_ok decode h]
    cases decode header with
    | ok expected => simp
    | error reason => simp [(hdefect reason).symm]

/-- Plain fences around a header of whole lines are those at which the text is taken apart. -/
theorem fenced_append (source : Text) (hends : EndsLine header)
    (hheader : ∀ precedes line follows,
      LineAt header precedes line follows → isFence line = false) :
    Fenced ("---\n".toList ++ header ++ "---\n".toList ++ source) "---\n".toList header
      "---\n".toList source where
  opens := ⟨by simp, .inl rfl, "---".toList, by decide, .inl rfl⟩
  closes :=
    have hbegins : EndsLine ("---".toList ++ '\n' :: header) := Text.endsLine_line.2 hends
    ⟨rfl, hbegins, "---".toList, by decide, .inl rfl⟩
  isFence_opening := by decide
  isFence_closing := by decide
  unfenced := hheader

/-- Test files are split at their fences, and nothing else happens to their text. One byte order
mark is left out. Then a file is unopened exactly if it is empty or its first line is no fence, and
unclosed exactly if its first line is a fence and no later one is. Any other file is in one way only
a fence, a header without fences, a fence and a script; just that header is decoded, and with what
comes of it goes just that script; a header that is refused is refused for the decoder's own reason.
So a header of whole lines without fences can be put before every script. -/
theorem test_files_are_split_at_fences (decode : Decoder) :
    (∀ content s : Text, content = '\uFEFF' :: s ∨ content = s ∧ s.head? ≠ some '\uFEFF' →
      (readWith decode content = .error .unopened ↔
        s = [] ∨ ∃ line follows, LineAt s [] line follows ∧ isFence line = false) ∧
      (readWith decode content = .error .unclosed ↔
        (∃ line follows, LineAt s [] line follows ∧ isFence line = true) ∧
          ∀ precedes line follows, LineAt s precedes line follows → precedes ≠ [] →
            isFence line = false) ∧
      (readWith decode content ≠ .error .unopened → readWith decode content ≠ .error .unclosed →
        ∃ opening header closing source, s = opening ++ header ++ closing ++ source ∧
          Fenced s opening header closing source ∧
          (∀ opening' header' closing' source', Fenced s opening' header' closing' source' →
            opening' = opening ∧ header' = header ∧ closing' = closing ∧ source' = source) ∧
          readWith decode content
            = match decode header with
              | .ok expected => .ok ⟨expected, source⟩
              | .error reason => .error (.badHeader reason))) ∧
    (∀ header source expected, EndsLine header →
      (∀ precedes line follows, LineAt header precedes line follows → isFence line = false) →
      decode header = .ok expected →
      readWith decode ("---\n".toList ++ header ++ "---\n".toList ++ source)
        = .ok ⟨expected, source⟩) ∧
    read = readWith Expectation.ofHeader := by
  refine ⟨?_, ?_, rfl⟩
  · intro content s hmark
    have hs : unmarked content = s := by
      rcases hmark with rfl | ⟨rfl, hhead⟩
      · exact unmarked_mark s
      · exact unmarked_of_head? hhead
    have hunopened : readWith decode content = .error .unopened ↔ ¬ Opens s := by
      rw [readWith_eq_error_iff decode (by simp), sections_unopened_iff, hs]
    have hunclosed : readWith decode content = .error .unclosed ↔ Opens s ∧ ¬ Closes s := by
      rw [readWith_eq_error_iff decode (by simp), sections_unclosed_iff, hs]
    refine ⟨hunopened.trans not_opens_iff, hunclosed.trans ?_, ?_⟩
    · simp [Opens, Closes]
    · intro hopened hclosed
      have hcases := sections_cases content
      rw [hs] at hcases
      rcases hcases with ⟨_, hno⟩ | ⟨_, hfirst, hno⟩ |
        ⟨opening, header, closing, source, hfenced, hsections⟩
      · exact (hopened (hunopened.2 hno)).elim
      · exact (hclosed (hunclosed.2 ⟨hfirst, hno⟩)).elim
      · exact ⟨opening, header, closing, source, hfenced.closes.whole, hfenced,
          fun _ _ _ _ => hfenced.unique, readWith_of_ok decode hsections⟩
  · intro header source expected hends hheader hdecode
    set content := "---\n".toList ++ header ++ "---\n".toList ++ source with hcontent
    have hunmarked : unmarked content = content := by
      refine unmarked_of_head? ?_
      simp [hcontent]
    have hfenced : Fenced (unmarked content) "---\n".toList header "---\n".toList source := by
      rw [hunmarked]
      exact fenced_append source hends hheader
    rw [readWith_of_ok decode (sections_of_fenced hfenced), hdecode]

/-- Fences that end in blanks, and behind them a script that begins with one more. -/
def refenced : Text := "--- \r\nmax_depth = 7\r\n---\n---\r\nx".toList

theorem refenced_is_split :
    Fenced refenced "--- \r\n".toList "max_depth = 7\r\n".toList "---\n".toList
      "---\r\nx".toList ∧
    read ('\uFEFF' :: refenced) = .ok ⟨{ limit := some 7 }, "---\r\nx".toList⟩ ∧
    Expectation.ofHeader "max_depth = 7\n".toList = .ok { limit := some 7 } ∧
    read "---\nmax_depth = 7\n---\n---\r\nx".toList
      = .ok ⟨{ limit := some 7 }, "---\r\nx".toList⟩ := by
  obtain ⟨hread, hwrite, heq⟩ := test_files_are_split_at_fences Expectation.ofHeader
  obtain ⟨_, _, hsplit⟩ := hread ('\uFEFF' :: refenced) refenced (.inl rfl)
  obtain ⟨_, _, _, _, _, _, hunique, hok⟩ := hsplit (by decide +kernel) (by decide +kernel)
  have hparts : Fenced refenced "--- \r\n".toList "max_depth = 7\r\n".toList "---\n".toList
      "---\r\nx".toList := fenced_iff.2 (by decide)
  obtain ⟨_, rfl, _, rfl⟩ := hunique _ _ _ _ hparts
  have hheader : Expectation.ofHeader "max_depth = 7\n".toList = .ok { limit := some 7 } := by
    decide +kernel
  refine ⟨hparts, ?_, hheader, ?_⟩
  · rw [heq, hok]
    decide +kernel
  · rw [heq]
    exact hwrite _ _ _ (.inr rfl) (Text.forall_lineAt_iff.2 (by decide)) hheader

end Trial

end LineScript
