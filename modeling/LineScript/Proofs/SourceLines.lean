import LineScript.Proofs.Reading
import Mathlib.Data.List.Basic

/-!
How the lines of a script lie in its source. Main statement: the lines and their terminators by
turns are the source, and the span of a line holds the bytes of its text.
-/

namespace LineScript

namespace Text

variable {s t body piece : Text} {i : Nat}

theorem byteSize_append (s t : Text) : byteSize (s ++ t) = byteSize s + byteSize t := by
  induction s with
  | nil => simp [byteSize]
  | cons c s ih =>
    simp only [byteSize, List.cons_append, List.map_cons, List.foldr_cons] at ih ⊢
    omega

theorem byteSize_le_of_prefix (h : s <+: t) : byteSize s ≤ byteSize t := by
  obtain ⟨rest, rfl⟩ := h
  rw [byteSize_append]
  omega

theorem byteSize_pos (h : s ≠ []) : 0 < byteSize s := by
  cases s with
  | nil => exact (h rfl).elim
  | cons c s =>
    have := Char.utf8Size_pos c
    simp only [byteSize, List.map_cons, List.foldr_cons]
    omega

theorem utf8_append (s t : Text) : utf8 (s ++ t) = utf8 s ++ utf8 t := List.flatMap_append

theorem length_utf8 (s : Text) : (utf8 s).length = byteSize s := by
  induction s with
  | nil => rfl
  | cons c s ih =>
    have hc := String.length_utf8EncodeChar c
    simp only [utf8, byteSize, List.flatMap_cons, List.length_append, List.map_cons,
      List.foldr_cons] at ih ⊢
    omega

theorem take_utf8 (s t : Text) : (utf8 (s ++ t)).take (byteSize s) = utf8 s := by
  rw [utf8_append]
  exact List.take_left' (length_utf8 s)

theorem drop_utf8 (s t : Text) : (utf8 (s ++ t)).drop (byteSize s) = utf8 t := by
  rw [utf8_append]
  exact List.drop_left' (length_utf8 s)

/-- The byte of an ASCII character is a byte of no other character. -/
theorem eq_of_mem_utf8EncodeChar {c x : Char} (hx : x.toNat < 128)
    (h : UInt8.ofNat x.toNat ∈ String.utf8EncodeChar c) : c = x := by
  have hbyte : ∀ n, n < 256 → UInt8.ofNat x.toNat = UInt8.ofNat n → x.toNat = n := by
    intro n hn heq
    have hnat := congrArg UInt8.toNat heq
    simp only [UInt8.toNat_ofNat'] at hnat
    omega
  -- One byte is the code itself, and the bytes of a longer encoding are all above those of ASCII.
  simp only [String.utf8EncodeChar] at h
  split at h
  · have hval := hbyte _ (by omega) (List.mem_singleton.1 h)
    exact Char.ext (UInt32.toNat_inj.1 hval.symm)
  · split at h
    · simp only [List.mem_cons, List.not_mem_nil, or_false] at h
      rcases h with h | h <;> have := hbyte _ (by omega) h <;> omega
    · split at h <;> simp only [List.mem_cons, List.not_mem_nil, or_false] at h
      · rcases h with h | h | h <;> have := hbyte _ (by omega) h <;> omega
      · rcases h with h | h | h | h <;> have := hbyte _ (by omega) h <;> omega

theorem count_utf8 (s : Text) : (utf8 s).count 10 = s.count '\n' := by
  induction s with
  | nil => rfl
  | cons c s ih =>
    simp only [utf8, List.flatMap_cons, List.count_append] at ih ⊢
    rw [ih]
    by_cases hc : c = '\n'
    · subst hc
      have hone : (String.utf8EncodeChar '\n').count 10 = 1 := by decide
      rw [List.count_cons_self]
      omega
    · have hfeed : 10 ∉ String.utf8EncodeChar c := fun hmem =>
        hc (eq_of_mem_utf8EncodeChar (x := '\n') (by decide) hmem)
      rw [List.count_cons_of_ne hc, List.count_eq_zero_of_not_mem hfeed]
      omega

/-- The number of bytes of a first part of the text. -/
def IsBoundary (s : Text) (n : Nat) : Prop := ∃ p, p <+: s ∧ byteSize p = n

/-- Every text is empty, or a last line, or a line with its line feed before more text. -/
theorem lines_induction {motive : Text → Prop} (nil : motive [])
    (last : ∀ body, body ≠ [] → '\n' ∉ body → motive body)
    (line : ∀ body rest, '\n' ∉ body → motive rest → motive (body ++ '\n' :: rest)) (s : Text) :
    motive s := by
  induction hn : s.length using Nat.strongRecOn generalizing s with
  | ind n ih =>
    by_cases hs : '\n' ∈ s
    · obtain ⟨body, rest, rfl, hbody⟩ := List.eq_append_cons_of_mem hs
      have hlt : rest.length < n := by
        simp at hn
        omega
      exact line body rest hbody (ih rest.length hlt rest rfl)
    · by_cases hne : s = []
      · rw [hne]
        exact nil
      · exact last s hne hs

theorem pieces_last (hne : body ≠ []) (h : '\n' ∉ body) : pieces body = [body] := by
  induction body with
  | nil => exact (hne rfl).elim
  | cons c body ih =>
    have hc : c ≠ '\n' := fun hc => h (by simp [hc])
    have hbody : '\n' ∉ body := fun hb => h (List.mem_cons_of_mem c hb)
    cases body with
    | nil => simp [pieces, hc]
    | cons d more => rw [pieces, if_neg hc, ih (by simp) hbody]

theorem pieces_line (rest : Text) (h : '\n' ∉ body) :
    pieces (body ++ '\n' :: rest) = (body ++ ['\n']) :: pieces rest := by
  induction body with
  | nil => simp [pieces]
  | cons c body ih =>
    have hc : c ≠ '\n' := fun hc => h (by simp [hc])
    have hbody : '\n' ∉ body := fun hb => h (List.mem_cons_of_mem c hb)
    rw [List.cons_append, pieces, if_neg hc, ih hbody]
    rfl

theorem flatten_pieces (s : Text) : (pieces s).flatten = s := by
  induction s using lines_induction with
  | nil => rfl
  | last body hne h => simp [pieces_last hne h]
  | line body rest h ih => simp [pieces_line rest h, ih]

/-- A piece holds no line feed but the one that ends it, and only the last one may have none. -/
theorem getElem?_pieces (h : (pieces s)[i]? = some piece) :
    ∃ body feed, '\n' ∉ body ∧ piece = body ++ feed ∧
      (feed = ['\n'] ∨ feed = [] ∧ i + 1 = (pieces s).length) := by
  induction s using lines_induction generalizing i with
  | nil => cases h
  | last body hne hbody =>
    rw [pieces_last hne hbody] at h ⊢
    cases i with
    | zero =>
      cases h
      exact ⟨_, [], hbody, by simp, .inr ⟨rfl, rfl⟩⟩
    | succ i => cases h
  | line body rest hbody ih =>
    rw [pieces_line rest hbody] at h ⊢
    cases i with
    | zero =>
      cases h
      exact ⟨body, ['\n'], hbody, rfl, .inl rfl⟩
    | succ i =>
      obtain ⟨later, feed, hlater, hpiece, hfeed⟩ := ih h
      refine ⟨later, feed, hlater, hpiece, ?_⟩
      rcases hfeed with hfeed | ⟨hfeed, hi⟩
      · exact .inl hfeed
      · exact .inr ⟨hfeed, by simp [hi]⟩

/-- Every piece before another one has its line feed. -/
theorem count_take_pieces (h : i < (pieces s).length) :
    ((pieces s).take i).flatten.count '\n' = i := by
  induction s using lines_induction generalizing i with
  | nil => cases h
  | last body hne hbody =>
    rw [pieces_last hne hbody] at h ⊢
    have hi : i = 0 := by simpa using h
    simp [hi]
  | line body rest hbody ih =>
    rw [pieces_line rest hbody] at h ⊢
    cases i with
    | zero => simp
    | succ i =>
      have hrest := ih (by simpa using h)
      have hcount := List.count_eq_zero_of_not_mem hbody
      simp [hrest, hcount]

theorem length_pieces (s : Text) :
    (pieces s).length = s.count '\n' + if s ≠ [] ∧ s.getLast? ≠ some '\n' then 1 else 0 := by
  induction s using lines_induction with
  | nil => rfl
  | last body hne hbody =>
    have hlast : body.getLast? ≠ some '\n' := fun h => hbody (List.mem_of_getLast? h)
    rw [pieces_last hne hbody, List.count_eq_zero_of_not_mem hbody, if_pos ⟨hne, hlast⟩]
    rfl
  | line body rest hbody ih =>
    have hcount := List.count_eq_zero_of_not_mem hbody
    rw [pieces_line rest hbody, List.length_cons, ih]
    cases rest with
    | nil => simp [hcount]
    | cons c rest =>
      simp [hcount, List.getLast?_cons]
      omega

/-- A character is taken off the end if it is there. -/
theorem before?_getD_cases (c : Char) (s : Text) :
    s = (before? [c] s).getD s ++ [c] ∨ s = (before? [c] s).getD s ∧ s.getLast? ≠ some c := by
  cases h : before? [c] s with
  | some body => exact .inl (before?_eq_some.1 h)
  | none =>
    refine .inr ⟨rfl, ?_⟩
    intro hlast
    obtain ⟨body, hbody⟩ := List.getLast?_eq_some_iff.1 hlast
    rw [before?_eq_some.2 hbody] at h
    cases h

theorem chomp_line (body : Text) :
    chomp (body ++ ['\n']) = (before? ['\r'] body).getD body := by
  have h : before? ['\n'] (body ++ ['\n']) = some body := before?_eq_some.2 rfl
  rw [chomp, h]
  rfl

theorem chomp_last (h : '\n' ∉ body) : chomp body = (before? ['\r'] body).getD body := by
  rcases before?_getD_cases '\n' body with hb | ⟨hb, _⟩
  · rw [hb] at h
    simp at h
  · rw [chomp, ← hb]

/-- What chomping takes off a piece. -/
def terminator (piece : Text) : Text := piece.drop (chomp piece).length

theorem terminator_eq {ending : Text} (h : piece = chomp piece ++ ending) :
    terminator piece = ending := by
  have hdrop : (chomp piece ++ ending).drop (chomp piece).length = ending := List.drop_left
  rwa [← h] at hdrop

/-- One carriage return before the line feed, or at the end, belongs to the terminator. -/
theorem terminator_of_append {feed : Text} (hbody : '\n' ∉ body) (hpiece : piece = body ++ feed)
    (hfeed : feed = ['\n'] ∨ feed = []) :
    '\n' ∉ chomp piece ∧ piece = chomp piece ++ terminator piece ∧
      (terminator piece = '\r' :: feed ∨
        terminator piece = feed ∧ (chomp piece).getLast? ≠ some '\r') := by
  have hchomp : chomp piece = (before? ['\r'] body).getD body := by
    rcases hfeed with rfl | rfl
    · rw [hpiece, chomp_line]
    · rw [hpiece, List.append_nil, chomp_last hbody]
  rcases before?_getD_cases '\r' body with h | ⟨h, hlast⟩
  · rw [← hchomp] at h
    have hsplit : piece = chomp piece ++ '\r' :: feed := by
      calc
        piece = body ++ feed := hpiece
        _ = chomp piece ++ ['\r'] ++ feed := by rw [← h]
        _ = chomp piece ++ '\r' :: feed := by simp
    have hterm := terminator_eq hsplit
    refine ⟨?_, by rwa [hterm], .inl hterm⟩
    intro hmem
    rw [h] at hbody
    exact hbody (List.mem_append_left _ hmem)
  · rw [← hchomp] at h
    rw [h] at hbody hlast hpiece
    have hterm := terminator_eq hpiece
    exact ⟨hbody, by rwa [hterm], .inr ⟨hterm, hlast⟩⟩

/-- A piece is a line and its terminator. Only the last one may do without a line feed, and a line
keeps no carriage return that its terminator could have. -/
theorem terminator_of_pieces (h : (pieces s)[i]? = some piece) :
    '\n' ∉ chomp piece ∧ piece = chomp piece ++ terminator piece ∧
      (terminator piece = ['\n'] ∨ terminator piece = ['\r', '\n'] ∨
        i + 1 = (pieces s).length ∧ (terminator piece = [] ∨ terminator piece = ['\r'])) ∧
      ((terminator piece).head? ≠ some '\r' → (chomp piece).getLast? ≠ some '\r') := by
  obtain ⟨body, feed, hbody, hpiece, hfeed⟩ := getElem?_pieces h
  obtain ⟨hchomp, hsplit, hterm⟩ :=
    terminator_of_append hbody hpiece (hfeed.imp_right And.left)
  refine ⟨hchomp, hsplit, ?_, ?_⟩
  · rcases hterm with hterm | ⟨hterm, _⟩ <;> rcases hfeed with rfl | ⟨rfl, hi⟩
    · exact .inr (.inl hterm)
    · exact .inr (.inr ⟨hi, .inr hterm⟩)
    · exact .inl hterm
    · exact .inr (.inr ⟨hi, .inl hterm⟩)
  · intro hhead
    rcases hterm with hterm | ⟨_, hlast⟩
    · rw [hterm] at hhead
      exact (hhead rfl).elim
    · exact hlast

end Text

namespace Script

variable {source : Text} {line : Line} {i : Nat}

/-- The lines, each with the terminator that follows it. -/
def chunks (lines : List Line) (ends : List Text) : List Text :=
  List.zipWith (fun line ending => line.text ++ ending) lines ends

/-- Lines with their terminators that account for every byte of a source. -/
structure Accounts (source : Text) (lines : List Line) (ends : List Text) : Prop where
  length_ends : ends.length = lines.length
  whole : source = (chunks lines ends).flatten
  /-- Only the last line may do without a line feed. -/
  ending : ∀ (i : Nat) ending, ends[i]? = some ending →
    ending = ['\n'] ∨ ending = ['\r', '\n'] ∨
      i + 1 = lines.length ∧ (ending = [] ∨ ending = ['\r'])
  /-- A line does not keep a carriage return that its terminator could have. -/
  returns : ∀ (i : Nat) line ending, lines[i]? = some line → ends[i]? = some ending →
    ending.head? ≠ some '\r' → line.text.getLast? ≠ some '\r'
  unbroken : ∀ line ∈ lines, '\n' ∉ line.text
  /-- A line begins after the lines and terminators before it; its span is as long as its text. -/
  span : ∀ (i : Nat) line, lines[i]? = some line →
    line.span.start = Text.byteSize ((chunks lines ends).take i).flatten ∧
      line.span.stop = line.span.start + Text.byteSize line.text
  bytes : ∀ line ∈ lines,
    ((Text.utf8 source).take line.span.stop).drop line.span.start = Text.utf8 line.text
  boundary : ∀ line ∈ lines,
    Text.IsBoundary source line.span.start ∧ Text.IsBoundary source line.span.stop
  in_order : lines.Pairwise fun line later => line.span.stop < later.span.start
  /-- The number of a line is the number of line feeds before it. -/
  feeds : ∀ (i : Nat) line, lines[i]? = some line →
    ((Text.utf8 source).take line.span.start).count 10 = i
  length_lines : lines.length
    = (Text.utf8 source).count 10 + if source ≠ [] ∧ source.getLast? ≠ some '\n' then 1 else 0
  command : ∀ line ∈ lines, line.command = Command.read? line.text

theorem getElem?_linesOfPieces (offset : Nat) (pieces : List Text) (i : Nat) :
    (linesOfPieces offset pieces)[i]? = pieces[i]?.map fun piece =>
      Line.at (offset + Text.byteSize (pieces.take i).flatten) (Text.chomp piece) := by
  induction pieces generalizing offset i with
  | nil => simp [linesOfPieces]
  | cons piece rest ih =>
    cases i with
    | zero => simp [linesOfPieces, Text.byteSize]
    | succ i =>
      rw [linesOfPieces, List.getElem?_cons_succ, ih]
      simp [Text.byteSize_append, Nat.add_assoc]

theorem length_linesOfPieces (offset : Nat) (pieces : List Text) :
    (linesOfPieces offset pieces).length = pieces.length := by
  induction pieces generalizing offset with
  | nil => rfl
  | cons piece rest ih => simp [linesOfPieces, ih]

/-- The terminators of the lines of a source. -/
def endings (source : Text) : List Text := (Text.pieces source).map Text.terminator

theorem chunks_ofSource (source : Text) (sourceId : Nat) :
    chunks (ofSource source sourceId).lines (endings source) = Text.pieces source := by
  apply List.ext_getElem?
  intro i
  rw [chunks, List.getElem?_zipWith, ofSource, getElem?_linesOfPieces, endings, List.getElem?_map]
  cases h : (Text.pieces source)[i]? with
  | none => rfl
  | some piece =>
    obtain ⟨_, hsplit, _⟩ := Text.terminator_of_pieces h
    exact congrArg some hsplit.symm

/-- A line begins after the pieces before its own; what chomping leaves of its own is its text. -/
theorem exists_piece (sourceId : Nat) (h : (ofSource source sourceId).lines[i]? = some line) :
    ∃ piece, (Text.pieces source)[i]? = some piece ∧
      line = Line.at (Text.byteSize ((Text.pieces source).take i).flatten) (Text.chomp piece) := by
  rw [ofSource, getElem?_linesOfPieces] at h
  obtain ⟨piece, hpiece, rfl⟩ := Option.map_eq_some_iff.1 h
  exact ⟨piece, hpiece, by rw [Nat.zero_add]⟩

theorem exists_after (sourceId : Nat) (h : (ofSource source sourceId).lines[i]? = some line) :
    ∃ before after, before = ((Text.pieces source).take i).flatten ∧
      source = before ++ line.text ++ after ∧
      line.span = ⟨Text.byteSize before, Text.byteSize (before ++ line.text)⟩ := by
  obtain ⟨piece, hpiece, rfl⟩ := exists_piece sourceId h
  obtain ⟨_, hsplit, _⟩ := Text.terminator_of_pieces hpiece
  obtain ⟨hi, hget⟩ := List.getElem?_eq_some_iff.1 hpiece
  have hcut := List.take_append_drop i (Text.pieces source)
  rw [List.drop_eq_getElem_cons hi, hget] at hcut
  have hwhole := congrArg List.flatten hcut
  rw [Text.flatten_pieces, List.flatten_append, List.flatten_cons] at hwhole
  refine ⟨_, Text.terminator piece ++ ((Text.pieces source).drop (i + 1)).flatten, rfl, ?_, ?_⟩
  · calc
      source = ((Text.pieces source).take i).flatten ++
          (piece ++ ((Text.pieces source).drop (i + 1)).flatten) := hwhole.symm
      _ = ((Text.pieces source).take i).flatten ++ (Text.chomp piece ++ Text.terminator piece ++
          ((Text.pieces source).drop (i + 1)).flatten) := by rw [← hsplit]
      _ = _ := by simp [Line.at]
  · simp [Line.at, Text.byteSize_append]

theorem byteSize_take_le (parts : List Text) {j : Nat} (h : i ≤ j) :
    Text.byteSize (parts.take i).flatten ≤ Text.byteSize (parts.take j).flatten := by
  obtain ⟨more, hmore⟩ : parts.take i <+: parts.take j := List.take_prefix_take_left h
  exact Text.byteSize_le_of_prefix ⟨more.flatten, by rw [← hmore, List.flatten_append]⟩

/-- A line that is not the last has a terminator, so that the next one begins later than it ends. -/
theorem pairwise_ofSource (source : Text) (sourceId : Nat) :
    (ofSource source sourceId).lines.Pairwise fun line later =>
      line.span.stop < later.span.start := by
  rw [List.pairwise_iff_getElem]
  intro i j hi hj hij
  obtain ⟨piece, hpiece, hline⟩ := exists_piece sourceId (List.getElem?_eq_getElem hi)
  obtain ⟨_, _, hlater⟩ := exists_piece sourceId (List.getElem?_eq_getElem hj)
  obtain ⟨_, hsplit, hterm, _⟩ := Text.terminator_of_pieces hpiece
  have hlast : i + 1 ≠ (Text.pieces source).length := by
    rw [ofSource, length_linesOfPieces] at hj
    omega
  have hne : Text.terminator piece ≠ [] := by
    rcases hterm with h | h | ⟨h, _⟩
    · simp [h]
    · simp [h]
    · exact (hlast h).elim
  have hpos := Text.byteSize_pos hne
  have hsize : Text.byteSize piece
      = Text.byteSize (Text.chomp piece) + Text.byteSize (Text.terminator piece) := by
    rw [← Text.byteSize_append, ← hsplit]
  have hnext := byteSize_take_le (Text.pieces source) (show i + 1 ≤ j from hij)
  rw [List.take_add_one, hpiece, Option.toList_some, List.flatten_append,
    Text.byteSize_append, List.flatten_singleton] at hnext
  rw [hline, hlater]
  simp only [Line.at]
  omega

end Script

/-- The lines of a source account for all of it: with their terminators they spell the source, their
spans are the places of their texts, in order and apart, and each asks for what is written on it. -/
theorem ofSource_accounts (source : Text) (sourceId : Nat) :
    ∃ ends, Script.Accounts source (Script.ofSource source sourceId).lines ends := by
  have hlength : (Script.ofSource source sourceId).lines.length = (Text.pieces source).length :=
    Script.length_linesOfPieces 0 (Text.pieces source)
  have hchunks := Script.chunks_ofSource source sourceId
  refine ⟨Script.endings source, ?_⟩
  constructor
  case length_ends => rw [hlength, Script.endings, List.length_map]
  case whole => rw [hchunks, Text.flatten_pieces]
  case ending =>
    intro i ending h
    rw [Script.endings, List.getElem?_map] at h
    obtain ⟨piece, hpiece, rfl⟩ := Option.map_eq_some_iff.1 h
    obtain ⟨_, _, hterm, _⟩ := Text.terminator_of_pieces hpiece
    rwa [hlength]
  case returns =>
    intro i line ending hl he
    obtain ⟨piece, hpiece, rfl⟩ := Script.exists_piece sourceId hl
    rw [Script.endings, List.getElem?_map, hpiece] at he
    cases he
    obtain ⟨_, _, _, hreturn⟩ := Text.terminator_of_pieces hpiece
    exact hreturn
  case unbroken =>
    intro line hl
    obtain ⟨i, hi⟩ := List.mem_iff_getElem?.1 hl
    obtain ⟨piece, hpiece, rfl⟩ := Script.exists_piece sourceId hi
    exact (Text.terminator_of_pieces hpiece).1
  case span =>
    intro i line hl
    obtain ⟨before, after, hbefore, _, hspan⟩ := Script.exists_after sourceId hl
    rw [hchunks, hspan, ← hbefore]
    exact ⟨rfl, Text.byteSize_append before line.text⟩
  case bytes =>
    intro line hl
    obtain ⟨i, hi⟩ := List.mem_iff_getElem?.1 hl
    obtain ⟨before, after, _, hsource, hspan⟩ := Script.exists_after sourceId hi
    rw [hspan, hsource, Text.take_utf8, Text.drop_utf8]
  case boundary =>
    intro line hl
    obtain ⟨i, hi⟩ := List.mem_iff_getElem?.1 hl
    obtain ⟨before, after, _, hsource, hspan⟩ := Script.exists_after sourceId hi
    rw [hspan]
    refine ⟨⟨before, ⟨line.text ++ after, ?_⟩, rfl⟩, ⟨before ++ line.text, ⟨after, ?_⟩, rfl⟩⟩
    · rw [hsource, List.append_assoc]
    · rw [hsource]
  case in_order => exact Script.pairwise_ofSource source sourceId
  case feeds =>
    intro i line hl
    obtain ⟨before, after, hbefore, hsource, hspan⟩ := Script.exists_after sourceId hl
    have hi : i < (Text.pieces source).length := by
      obtain ⟨hi, _⟩ := List.getElem?_eq_some_iff.1 hl
      rwa [hlength] at hi
    have hcount := Text.count_take_pieces hi
    rw [← hbefore] at hcount
    rw [hspan, hsource, List.append_assoc, Text.take_utf8, Text.count_utf8, hcount]
  case length_lines => rw [hlength, Text.count_utf8, Text.length_pieces]
  case command =>
    intro line hl
    exact Script.command_of_mem_linesOfPieces hl

end LineScript
