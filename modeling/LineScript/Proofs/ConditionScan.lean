import LineScript.Proofs.Occurrence
import LineScript.Proofs.TokenOffsets

/-!
Conditions split in one pass. A condition is searched for each symbol by itself, and the leftmost of
the places found is taken. Main statement: reading the condition once from left to right finds the
same symbol, which is the only one at the least byte offset where any stands between spaces.
-/

namespace LineScript

namespace Text

variable {mark s : Text} {c x : Char} {offset : Nat}

theorem utf8_cons (c : Char) (s : Text) : utf8 (c :: s) = String.utf8EncodeChar c ++ utf8 s :=
  List.flatMap_cons

theorem utf8Size_of_lt (h : x.toNat < 128) : x.utf8Size = 1 := by
  rw [Char.utf8Size_eq_one_iff, UInt32.le_iff_toNat_le]
  exact Nat.le_of_lt_succ h

theorem utf8_cons_of_lt (h : x.toNat < 128) (s : Text) :
    utf8 (x :: s) = UInt8.ofNat x.toNat :: utf8 s := by
  rw [utf8_cons, String.utf8EncodeChar_eq_singleton (utf8Size_of_lt h)]
  rfl

/-- The byte of an ASCII character stands at no offset inside another character. -/
theorem eq_of_drop_utf8EncodeChar {bytes rest : List UInt8} (hx : x.toNat < 128)
    (hoffset : offset < c.utf8Size)
    (h : (String.utf8EncodeChar c).drop offset ++ rest = UInt8.ofNat x.toNat :: bytes) :
    offset = 0 ∧ c = x := by
  have hlength := String.length_utf8EncodeChar c
  cases hdrop : (String.utf8EncodeChar c).drop offset with
  | nil =>
    have := List.drop_eq_nil_iff.1 hdrop
    omega
  | cons byte more =>
    rw [hdrop] at h
    obtain ⟨rfl, _⟩ := List.cons.inj h
    have hmem : UInt8.ofNat x.toNat ∈ (String.utf8EncodeChar c).drop offset := by
      rw [hdrop]
      exact List.mem_cons_self
    obtain rfl := eq_of_mem_utf8EncodeChar hx (List.mem_of_mem_drop hmem)
    have hsize := utf8Size_of_lt hx
    exact ⟨by omega, rfl⟩

/-- ASCII bytes at the start of a text's bytes are characters at its start. -/
theorem prefix_of_utf8_prefix (hmark : ∀ x ∈ mark, x.toNat < 128) (h : utf8 mark <+: utf8 s) :
    mark <+: s := by
  induction mark generalizing s with
  | nil => exact List.nil_prefix
  | cons x mark ih =>
    obtain ⟨hx, hrest⟩ := List.forall_mem_cons.1 hmark
    rw [utf8_cons_of_lt hx] at h
    cases s with
    | nil => cases List.prefix_nil.1 h
    | cons c s =>
      obtain ⟨bytes, hbytes⟩ := h
      rw [utf8_cons] at hbytes
      obtain ⟨_, rfl⟩ := eq_of_drop_utf8EncodeChar hx (Char.utf8Size_pos c) hbytes.symm
      rw [← utf8_cons, utf8_cons_of_lt hx] at hbytes
      exact List.cons_prefix_cons.2 ⟨rfl, ih hrest ⟨bytes, (List.cons.inj hbytes).2⟩⟩

/-- An ASCII text stands among the bytes of another exactly where it stands among its characters. -/
theorem utf8_prefix_drop_iff (hne : mark ≠ []) (hmark : ∀ x ∈ mark, x.toNat < 128) :
    utf8 mark <+: (utf8 s).drop offset ↔
      ∃ before after, s = before ++ mark ++ after ∧ byteSize before = offset := by
  constructor
  · intro h
    induction s generalizing offset with
    | nil =>
      obtain ⟨x, mark, rfl⟩ := List.exists_cons_of_ne_nil hne
      rw [utf8_cons_of_lt (hmark x List.mem_cons_self)] at h
      simp [utf8] at h
    | cons c s ih =>
      have hlength := String.length_utf8EncodeChar c
      by_cases hinside : offset < c.utf8Size
      · -- The first byte is that of an ASCII character, so that it begins one.
        obtain ⟨x, rest, rfl⟩ := List.exists_cons_of_ne_nil hne
        have hstart := h
        obtain ⟨bytes, hbytes⟩ := h
        rw [utf8_cons c, utf8_cons_of_lt (hmark x List.mem_cons_self),
          List.drop_append_of_le_length (by omega)] at hbytes
        obtain ⟨rfl, _⟩ :=
          eq_of_drop_utf8EncodeChar (hmark x List.mem_cons_self) hinside hbytes.symm
        obtain ⟨after, hafter⟩ := prefix_of_utf8_prefix hmark hstart
        exact ⟨[], after, hafter.symm, rfl⟩
      · rw [utf8_cons, List.drop_append, List.drop_eq_nil_of_le (by omega), List.nil_append,
          hlength] at h
        obtain ⟨before, after, rfl, hsize⟩ := ih h
        refine ⟨c :: before, after, rfl, ?_⟩
        rw [byteSize_cons, hsize]
        omega
  · rintro ⟨before, after, rfl, rfl⟩
    rw [List.append_assoc, drop_utf8, utf8_append]
    exact List.prefix_append _ _

end Text

namespace Comparison

variable {c d : Comparison} {s before after word : Text} {offset : Nat}

theorem spaced_ne_nil (c : Comparison) : c.spaced ≠ [] := by
  simp [spaced]

theorem spaced_ascii (c : Comparison) : ∀ x ∈ c.spaced, x.toNat < 128 := by
  have hall : (c.spaced.all fun x => x.toNat < 128) = true := by
    cases c <;> decide
  intro x hx
  exact of_decide_eq_true (List.all_eq_true.1 hall x hx)

/-- No symbol stands between spaces. -/
def Clear (s : Text) : Prop := ∀ c : Comparison, ¬ c.spaced <:+: s

/-- The bytes from an offset on begin with those of the symbol between spaces. -/
def StandsAt (s : Text) (offset : Nat) (c : Comparison) : Prop :=
  Text.utf8 c.spaced <+: (Text.utf8 s).drop offset

instance : Decidable (StandsAt s offset c) :=
  inferInstanceAs (Decidable (Text.utf8 c.spaced <+: (Text.utf8 s).drop offset))

theorem standsAt_iff : StandsAt s offset c ↔
    ∃ before after, s = before ++ c.spaced ++ after ∧ Text.byteSize before = offset :=
  Text.utf8_prefix_drop_iff c.spaced_ne_nil c.spaced_ascii

theorem StandsAt.unique (hc : StandsAt s offset c) (hd : StandsAt s offset d) : c = d := by
  obtain ⟨before, after, rfl, rfl⟩ := standsAt_iff.1 hc
  obtain ⟨front, back, heq, hsize⟩ := standsAt_iff.1 hd
  rw [List.append_assoc, List.append_assoc] at heq
  have hsplit := Text.splitBytes?_append before (c.spaced ++ after)
  rw [heq, ← hsize, Text.splitBytes?_append] at hsplit
  obtain ⟨rfl, hrest⟩ := Prod.mk.inj (Option.some.inj hsplit)
  exact (spaced_append_inj hrest.symm).1

/-- A symbol that stands between spaces, and none at a lesser offset. -/
structure StandsFirst (s : Text) (offset : Nat) (c : Comparison) : Prop where
  stands : StandsAt s offset c
  least : ∀ other d, StandsAt s other d → offset ≤ other

theorem StandsFirst.unique {other : Nat} (hc : StandsFirst s offset c)
    (hd : StandsFirst s other d) : offset = other ∧ c = d := by
  obtain rfl := Nat.le_antisymm (hc.least other d hd.stands) (hd.least offset c hc.stands)
  exact ⟨rfl, hc.stands.unique hd.stands⟩

theorem standsFirst_append (h : Clear (before ++ [' '])) :
    StandsFirst (before ++ c.spaced ++ after) (Text.byteSize before) c := by
  refine ⟨standsAt_iff.2 ⟨before, after, rfl, rfl⟩, ?_⟩
  intro other d hd
  obtain ⟨front, back, heq, rfl⟩ := standsAt_iff.1 hd
  have hbefore : before <+: before ++ c.spaced ++ after :=
    ⟨c.spaced ++ after, by rw [List.append_assoc]⟩
  have hfront : front <+: before ++ c.spaced ++ after :=
    ⟨d.spaced ++ back, by rw [heq, List.append_assoc]⟩
  exact Text.byteSize_le_of_prefix
    (List.prefix_of_prefix_length_le hbefore hfront (length_le_of_spaced h heq).1)

theorem clear_iff : Clear s ↔ ∀ offset c, ¬ StandsAt s offset c := by
  constructor
  · intro h offset c hc
    obtain ⟨before, after, rfl, _⟩ := standsAt_iff.1 hc
    exact h c ⟨before, after, rfl⟩
  · rintro h c ⟨before, after, heq⟩
    exact h _ c (standsAt_iff.2 ⟨before, after, heq.symm, rfl⟩)

/-- The comparison with a symbol. -/
def ofSymbol? : Text → Option Comparison
  | ['=', '='] => some equal
  | ['!', '='] => some notEqual
  | ['<', '='] => some atMost
  | ['>', '='] => some atLeast
  | ['<'] => some less
  | ['>'] => some greater
  | _ => none

theorem ofSymbol?_eq_some : ofSymbol? word = some c ↔ word = c.symbol := by
  constructor
  · intro h
    unfold ofSymbol? at h
    split at h <;> cases h <;> rfl
  · rintro rfl
    cases c <;> rfl

/-- What a pass over a text remembers of the characters it has read. -/
structure Scan where
  /-- What came before the last space, if there was one. -/
  before : Option Text := none
  /-- What has come since. -/
  word : Text := []

namespace Scan

variable {scan : Scan} {x : Char} {rest : Text}

/-- All that has been read. -/
def seen (scan : Scan) : Text :=
  match scan.before with
  | none => scan.word
  | some before => before ++ ' ' :: scan.word

/-- The symbol between the last space and one that comes now. -/
def found? (scan : Scan) : Option (Text × Comparison) := do
  let before ← scan.before
  let c ← ofSymbol? scan.word
  some (before, c)

def next (scan : Scan) (x : Char) : Scan :=
  if x = ' ' then { before := some scan.seen } else { scan with word := scan.word ++ [x] }

/-- Reads on up to the first symbol between spaces, and gives what comes before and after it. -/
def run (scan : Scan) : Text → Option (Text × Comparison × Text)
  | [] => none
  | x :: rest =>
    match if x = ' ' then scan.found? else none with
    | some (before, c) => some (before, c, rest)
    | none => (scan.next x).run rest

theorem found?_eq_some :
    scan.found? = some (before, c) ↔ scan.before = some before ∧ scan.word = c.symbol := by
  simp [found?, Option.bind_eq_some_iff, ofSymbol?_eq_some]

theorem seen_next (scan : Scan) (x : Char) : (scan.next x).seen = scan.seen ++ [x] := by
  obtain ⟨before, word⟩ := scan
  unfold next
  split
  · rename_i hx
    rw [hx]
    rfl
  · cases before <;> simp [seen]

/-- What a pass keeps true until it finds a symbol. -/
structure Valid (scan : Scan) : Prop where
  space_not_mem : ' ' ∉ scan.word
  clear : Clear scan.seen

theorem valid_initial : Valid {} where
  space_not_mem := List.not_mem_nil
  clear := by
    intro c hin
    exact c.spaced_ne_nil (List.infix_nil.1 hin)

/-- A symbol that ends with the space that comes now is the one found. -/
theorem Valid.found (h : scan.Valid) (hsuffix : c.spaced <:+ scan.seen ++ [' ']) :
    ∃ before, scan.found? = some (before, c) := by
  obtain ⟨front, hfront⟩ := hsuffix
  have hseen : front ++ ' ' :: c.symbol = scan.seen := by
    have : (front ++ ' ' :: c.symbol) ++ [' '] = scan.seen ++ [' '] := by
      rw [← hfront]
      simp [spaced]
    exact List.append_cancel_right this
  cases hbefore : scan.before with
  | none =>
    have hspace := h.space_not_mem
    simp only [seen, hbefore] at hseen
    rw [← hseen] at hspace
    simp at hspace
  | some before =>
    simp only [seen, hbefore] at hseen
    obtain ⟨_, hword⟩ := Text.append_cons_inj c.space_not_mem_symbol h.space_not_mem hseen
    exact ⟨before, found?_eq_some.2 ⟨hbefore, hword.symm⟩⟩

/-- A character keeps the pass valid unless it ends a symbol. -/
theorem Valid.next (h : scan.Valid) (hx : x = ' ' → scan.found? = none) : (scan.next x).Valid where
  space_not_mem := by
    unfold Scan.next
    split
    · exact List.not_mem_nil
    · rename_i hne
      simpa [h.space_not_mem] using Ne.symm hne
  clear := by
    intro c hin
    rw [seen_next, List.infix_concat_iff] at hin
    rcases hin with hsuffix | hin
    · -- The symbol's own space is the character that was read.
      obtain rfl : x = ' ' := by
        rcases List.suffix_concat_iff.1 hsuffix with hnil | ⟨front, hfront, _⟩
        · exact (c.spaced_ne_nil hnil).elim
        · exact (List.cons.inj (List.append_inj' hfront rfl).2).1.symm
      obtain ⟨before, hfound⟩ := h.found hsuffix
      rw [hx rfl] at hfound
      cases hfound
    · exact h.clear c hin

theorem Valid.of_found (h : scan.Valid) (hfound : scan.found? = some (before, c)) :
    scan.seen ++ [' '] = before ++ c.spaced ∧ Clear (before ++ [' ']) := by
  obtain ⟨hbefore, hword⟩ := found?_eq_some.1 hfound
  have hseen : scan.seen = before ++ [' '] ++ c.symbol := by
    simp [seen, hbefore, hword]
  refine ⟨by simp [hseen, spaced], ?_⟩
  intro d hin
  apply h.clear d
  rw [hseen]
  exact hin.trans (List.prefix_append _ _).isInfix

theorem run_of_found (rest : Text) (h : scan.found? = some (before, c)) :
    scan.run (' ' :: rest) = some (before, c, rest) := by
  simp [run, h]

theorem run_of_not_found (rest : Text) (h : x = ' ' → scan.found? = none) :
    scan.run (x :: rest) = (scan.next x).run rest := by
  have hnone : (if x = ' ' then scan.found? else none) = none := by
    split
    · exact h ‹_›
    · rfl
  rw [run, hnone]

/-- A pass ends at a symbol that has none before it, or it finds that there is none. -/
theorem Valid.run_cases (h : scan.Valid) (rest : Text) :
    (scan.run rest = none ∧ Clear (scan.seen ++ rest)) ∨
      ∃ before c after, scan.run rest = some (before, c, after) ∧
        scan.seen ++ rest = before ++ c.spaced ++ after ∧ Clear (before ++ [' ']) := by
  induction rest generalizing scan with
  | nil =>
    left
    rw [List.append_nil]
    exact ⟨rfl, h.clear⟩
  | cons x rest ih =>
    rw [show scan.seen ++ x :: rest = scan.seen ++ [x] ++ rest by simp]
    by_cases hnone : x = ' ' → scan.found? = none
    · rw [run_of_not_found rest hnone, ← seen_next]
      exact ih (h.next hnone)
    · obtain ⟨rfl, hsome⟩ := Classical.not_imp.1 hnone
      obtain ⟨⟨before, c⟩, hfound⟩ := Option.ne_none_iff_exists'.1 hsome
      obtain ⟨hseen, hclear⟩ := h.of_found hfound
      exact .inr ⟨before, c, rest, run_of_found rest hfound, by rw [hseen], hclear⟩

end Scan

/-- The first symbol between spaces, as one pass finds it. -/
def scan? (s : Text) : Option (Text × Comparison × Text) := Scan.run {} s

theorem scan?_cases (s : Text) : (scan? s = none ∧ Clear s) ∨
    ∃ before c after, scan? s = some (before, c, after) ∧ s = before ++ c.spaced ++ after ∧
      Clear (before ++ [' ']) :=
  Scan.valid_initial.run_cases s

/-- The trimmed sides of a cut; neither may be empty. -/
def sides? : Text × Comparison × Text → Option (Text × Comparison × Text)
  | (left, c, right) =>
    if Text.trim left = [] ∨ Text.trim right = [] then none
    else some (Text.trim left, c, Text.trim right)

/-- The split of a text that is searched for each symbol in the given order. -/
def splitTrying (order : List Comparison) (s : Text) : Option (Text × Comparison × Text) :=
  (leftmost? (order.filterMap (cut? s))).bind sides?

theorem splitTrying_all (s : Text) : splitTrying all s = split? s := by
  unfold splitTrying split?
  split <;> rename_i h <;> rw [h] <;> rfl

/-- Whatever the order, the leftmost of the places found is the one that a single pass finds. -/
theorem leftmost?_eq_scan? {order : List Comparison} (hall : ∀ c, c ∈ order) (s : Text) :
    leftmost? (order.filterMap (cut? s)) = scan? s := by
  rcases scan?_cases s with ⟨hscan, hclear⟩ | ⟨before, c, after, hscan, rfl, hclear⟩
  · rw [hscan]
    cases hm : leftmost? (order.filterMap (cut? s)) with
    | none => rfl
    | some cut =>
      obtain ⟨left, c, right⟩ := cut
      have hs := Text.eq_append_of_cut? (mem_cuts_iff.1 (mem_of_leftmost? hm)).2
      exact (hclear c ⟨left, right, hs.symm⟩).elim
  · rw [hscan]
    exact leftmost?_append hall hclear

theorem splitTrying_eq {order : List Comparison} (hall : ∀ c, c ∈ order) (s : Text) :
    splitTrying order s = (scan? s).bind sides? := by
  rw [splitTrying, leftmost?_eq_scan? hall]

/-- The first symbol is the one that a single pass stops at, and the text can be cut there. -/
theorem StandsFirst.exists_scan? (h : StandsFirst s offset c) :
    ∃ before after, scan? s = some (before, c, after) ∧ Text.slice s 0 offset = .ok before ∧
      Text.slice s (offset + Text.byteSize c.spaced) (Text.byteSize s) = .ok after := by
  rcases scan?_cases s with ⟨_, hclear⟩ | ⟨before, d, after, hscan, rfl, hclear⟩
  · exact (clear_iff.1 hclear offset c h.stands).elim
  · obtain ⟨rfl, rfl⟩ := h.unique (standsFirst_append hclear)
    refine ⟨before, after, hscan, ?_, ?_⟩
    · exact Text.slice_eq_ok.2 ⟨[], c.spaced ++ after, by simp, rfl, rfl⟩
    · exact Text.slice_eq_ok.2
        ⟨before ++ c.spaced, [], by simp, Text.byteSize_append before c.spaced, rfl⟩

end Comparison

/-- A condition is split as by one pass from left to right. At each byte offset at most one symbol
stands between spaces. If none stands anywhere there is no split. Otherwise the one at the least
offset decides: the sides are the trimmed texts before and after it, and if one of them is empty
there is no split, whatever comes later. The order in which the symbols are searched for makes no
difference. -/
theorem conditions_are_split_in_one_pass (s : Text) :
    (∀ offset c d, Comparison.StandsAt s offset c → Comparison.StandsAt s offset d → c = d) ∧
    ((∀ offset c, ¬ Comparison.StandsAt s offset c) → Comparison.split? s = none) ∧
    (∀ offset c, Comparison.StandsFirst s offset c → ∃ before after,
      Text.slice s 0 offset = .ok before ∧
      Text.slice s (offset + Text.byteSize c.spaced) (Text.byteSize s) = .ok after ∧
      Comparison.split? s
        = if Text.trim before = [] ∨ Text.trim after = [] then none
          else some (Text.trim before, c, Text.trim after)) ∧
    Comparison.split? s = (Comparison.scan? s).bind Comparison.sides? ∧
    ∀ order, order.Perm Comparison.all → Comparison.splitTrying order s = Comparison.split? s := by
  have hsplit : Comparison.split? s = (Comparison.scan? s).bind Comparison.sides? := by
    rw [← Comparison.splitTrying_all, Comparison.splitTrying_eq Comparison.mem_all]
  refine ⟨?_, ?_, ?_, hsplit, ?_⟩
  · intro offset c d hc hd
    exact hc.unique hd
  · intro hnowhere
    rcases Comparison.scan?_cases s with ⟨hscan, _⟩ | ⟨before, c, after, _, rfl, hclear⟩
    · rw [hsplit, hscan]
      rfl
    · exact (hnowhere _ c (Comparison.standsFirst_append hclear).stands).elim
  · intro offset c hfirst
    obtain ⟨before, after, hscan, hbefore, hafter⟩ := hfirst.exists_scan?
    refine ⟨before, after, hbefore, hafter, ?_⟩
    rw [hsplit, hscan]
    rfl
  · intro order horder
    rw [hsplit]
    exact Comparison.splitTrying_eq (fun c => horder.mem_iff.2 (Comparison.mem_all c)) s

/-- A letter of two bytes, two symbols that share a space, and one more. -/
def sharedSpace : Text := "π < == b >= 1".toList

/-- The first symbol has nothing before it, and the second has text on both sides. -/
def emptySide : Text := " == a == b".toList

/-- The symbol stands between letters. -/
def unspaced : Text := "a==b".toList

theorem first_symbols_decide :
    Comparison.StandsFirst sharedSpace 2 .less ∧ Comparison.StandsAt sharedSpace 4 .equal ∧
      ¬ Comparison.StandsAt sharedSpace 2 .equal ∧
      Comparison.split? sharedSpace = some (['π'], .less, "== b >= 1".toList) ∧
      Comparison.all.reverse.Perm Comparison.all ∧
      Comparison.splitTrying Comparison.all.reverse sharedSpace
        = some (['π'], .less, "== b >= 1".toList) ∧
      Comparison.StandsFirst emptySide 0 .equal ∧ Comparison.StandsAt emptySide 5 .equal ∧
      Comparison.split? emptySide = none ∧
      (∀ offset c, ¬ Comparison.StandsAt unspaced offset c) ∧
      Comparison.split? unspaced = none := by
  obtain ⟨hunique, _, hsplit, _, horder⟩ := conditions_are_split_in_one_pass sharedSpace
  have hclear : Comparison.Clear (['π'] ++ [' ']) := by
    intro d
    cases d <;> decide
  have hless : Comparison.StandsFirst sharedSpace 2 .less := by
    rw [show sharedSpace = ['π'] ++ Comparison.spaced .less ++ "== b >= 1".toList by decide]
    exact Comparison.standsFirst_append hclear
  have hother : ¬ Comparison.StandsAt sharedSpace 2 .equal := by
    intro h
    cases hunique 2 _ _ h hless.stands
  have hshared : Comparison.split? sharedSpace = some (['π'], .less, "== b >= 1".toList) := by
    obtain ⟨before, after, hbefore, hafter, heq⟩ := hsplit 2 _ hless
    cases hbefore
    cases hafter
    exact heq
  have hreverse := List.reverse_perm Comparison.all
  have hempty : Comparison.StandsFirst emptySide 0 .equal :=
    ⟨by decide, fun other _ _ => Nat.zero_le other⟩
  have hnone : Comparison.split? emptySide = none := by
    obtain ⟨before, after, hbefore, _, heq⟩ :=
      (conditions_are_split_in_one_pass emptySide).2.2.1 0 _ hempty
    cases hbefore
    exact heq
  have hnowhere : ∀ offset c, ¬ Comparison.StandsAt unspaced offset c := by
    apply Comparison.clear_iff.1
    intro d
    cases d <;> decide
  exact ⟨hless, by decide, hother, hshared, hreverse, (horder _ hreverse).trans hshared, hempty,
    by decide, hnone, hnowhere, (conditions_are_split_in_one_pass unspaced).2.1 hnowhere⟩

end LineScript
