import LineScript.Proofs.Occurrence
import LineScript.Proofs.TokenGrammar

/-!
Where references stand in a text. Main statement: a scan skips no token. It finds a conversion if
there is one anywhere, and without conversions it finds every reference there is, so that rendering
puts values in place of references and leaves all other characters alone.
-/

namespace LineScript

variable {s follows name other : Text} {part : Part} {place start : Nat} {c : Char}

/-- A name between brackets stands at that place of the text. -/
structure Text.ReferenceAt (s : Text) (place : Nat) (name : Text) : Prop where
  nonempty : name ≠ []
  chars : ∀ c ∈ name, c.isAlphanum = true ∨ c ∈ ['_', '-']
  stands : ['['] ++ name ++ [']'] <+: s.drop place

theorem isName_iff :
    isName name = true ↔ name ≠ [] ∧ ∀ c ∈ name, c.isAlphanum = true ∨ c ∈ ['_', '-'] := by
  have hchar (c : Char) : isNameChar c = true ↔ c.isAlphanum = true ∨ c ∈ ['_', '-'] := by
    simp only [isNameChar, Bool.or_eq_true, decide_eq_true_eq, List.mem_cons, List.not_mem_nil,
      or_false, or_assoc]
  simp only [isName, Bool.and_eq_true, decide_eq_true_eq, List.all_eq_true, hchar, ne_eq]

namespace Token

/-- What is written as a reference is read as one, whatever follows it. -/
theorem reference?_append (follows : Text) (h : isName name = true) :
    reference? ((Part.ref name).source ++ follows) = some (.ref name, follows) := by
  have hafter : Text.after? ['['] ((Part.ref name).source ++ follows)
      = some (name ++ [']'] ++ follows) := Text.after?_eq_some.2 (by simp [Part.source])
  have hcut : Text.cut? [']'] (name ++ [']'] ++ follows) = some (name, follows) :=
    Text.cut?_singleton follows (not_mem_of_isName h (by decide))
  simp only [reference?, hafter, hcut, h, if_true]

end Token

namespace Text

theorem referenceAt_zero_iff :
    ReferenceAt s 0 name ↔ ∃ follows, Token.reference? s = some (.ref name, follows) := by
  constructor
  · rintro ⟨hne, hchars, follows, hs⟩
    rw [List.drop_zero] at hs
    rw [← hs]
    exact ⟨follows, Token.reference?_append follows (isName_iff.2 ⟨hne, hchars⟩)⟩
  · rintro ⟨follows, h⟩
    obtain ⟨read, hname, hpart, hs⟩ := Token.exists_of_reference? h
    cases hpart
    obtain ⟨hne, hchars⟩ := isName_iff.1 hname
    exact ⟨hne, hchars, follows, hs.symm⟩

theorem not_referenceAt_zero (h : Token.reference? s = none) (name : Text) :
    ¬ ReferenceAt s 0 name := by
  intro hat
  obtain ⟨follows, hread⟩ := referenceAt_zero_iff.1 hat
  rw [h] at hread
  cases hread

theorem referenceAt_append_iff (first : Text) :
    ReferenceAt (first ++ s) (first.length + place) name ↔ ReferenceAt s place name := by
  have hdrop : (first ++ s).drop (first.length + place) = s.drop place := by simp
  constructor
  · rintro ⟨hne, hchars, hstands⟩
    exact ⟨hne, hchars, hdrop ▸ hstands⟩
  · rintro ⟨hne, hchars, hstands⟩
    exact ⟨hne, hchars, hdrop.symm ▸ hstands⟩

theorem referenceAt_cons_iff :
    ReferenceAt (c :: s) (place + 1) name ↔ ReferenceAt s place name := by
  rw [Nat.add_comm]
  exact referenceAt_append_iff [c]

theorem ReferenceAt.getElem? (h : ReferenceAt s place name) : s[place]? = some '[' := by
  obtain ⟨_, _, rest, hrest⟩ := h
  rw [← List.head?_drop, ← hrest]
  rfl

/-- A reference at the front is the only one that begins inside it, as it opens no other bracket. -/
theorem referenceAt_source_cases (hname : isName name = true)
    (h : ReferenceAt ((Part.ref name).source ++ follows) place other) :
    place = 0 ∧ other = name ∨
      ∃ next, place = name.length + 2 + next ∧ ReferenceAt follows next other := by
  have hlength : (Part.ref name).source.length = name.length + 2 := by simp [Part.source]
  by_cases hzero : place = 0
  · subst hzero
    obtain ⟨rest, hread⟩ := referenceAt_zero_iff.1 h
    rw [Token.reference?_append follows hname] at hread
    cases hread
    exact .inl ⟨rfl, rfl⟩
  · right
    by_cases hinside : place < name.length + 2
    · have hopen := h.getElem?
      rw [List.getElem?_append_left (by omega)] at hopen
      obtain ⟨k, rfl⟩ := Nat.exists_eq_succ_of_ne_zero hzero
      have hmem : '[' ∈ name ++ [']'] := List.mem_of_getElem? hopen
      have hno : '[' ∉ name := not_mem_of_isName hname (by decide)
      simp [hno] at hmem
    · obtain ⟨next, rfl⟩ := Nat.exists_eq_add_of_le (Nat.le_of_not_lt hinside)
      refine ⟨next, rfl, ?_⟩
      rw [← hlength] at h
      exact (referenceAt_append_iff _).1 h

end Text

namespace Template

/-- The references of a template, each with the place where it begins if the template begins at the
given one. -/
def referencesFrom : Nat → Template → List (Nat × Text)
  | _, [] => []
  | place, .ref name :: parts =>
    (place, name) :: referencesFrom (place + (Part.ref name).source.length) parts
  | place, part :: parts => referencesFrom (place + part.source.length) parts

/-- The references of a template, each with the place where it begins in the text. -/
def references (t : Template) : List (Nat × Text) := referencesFrom 0 t

theorem referencesFrom_push (place : Nat) (c : Char) (t : Template) :
    referencesFrom place (push c t) = referencesFrom (place + 1) t := by
  unfold push
  split
  · simp only [referencesFrom, Part.source, List.length_cons]
    congr 1
    omega
  · simp [referencesFrom, Part.source]

theorem le_of_mem_referencesFrom {t : Template} (h : (start, name) ∈ referencesFrom place t) :
    place ≤ start := by
  induction t generalizing place with
  | nil => cases h
  | cons part parts ih =>
    cases part with
    | ref =>
      rcases List.mem_cons.1 h with he | h
      · cases he
        exact Nat.le_refl _
      · exact Nat.le_trans (Nat.le_add_right ..) (ih h)
    | literal | conversion => exact Nat.le_trans (Nat.le_add_right ..) (ih h)

theorem pairwise_referencesFrom (place : Nat) (t : Template) :
    (referencesFrom place t).Pairwise fun first second => first.1 < second.1 := by
  induction t generalizing place with
  | nil => exact .nil
  | cons part parts ih =>
    cases part with
    | ref name =>
      refine .cons ?_ (ih _)
      rintro ⟨start, next⟩ hmem
      have hle := le_of_mem_referencesFrom hmem
      simp only [Part.source, List.length_append, List.length_singleton] at hle
      omega
    | literal | conversion => exact ih _

theorem mem_referencesFrom_scan :
    (start, other) ∈ referencesFrom place (scan .plain s) ↔
      ∃ offset, start = place + offset ∧ Text.ReferenceAt s offset other := by
  induction s using scan.induct .plain generalizing place with
  | case1 =>
    rw [scan_nil]
    simp only [referencesFrom, List.not_mem_nil, false_iff]
    rintro ⟨offset, _, h⟩
    cases h.getElem?
  | case2 c rest part follows h ih =>
    obtain ⟨name, hname, rfl, hs⟩ := Token.exists_of_reference? h
    rw [scan_of_token h, referencesFrom, List.mem_cons, ih, hs]
    have hlength : (Part.ref name).source.length = name.length + 2 := by simp [Part.source]
    constructor
    · rintro (he | ⟨offset, rfl, hoffset⟩)
      · cases he
        exact ⟨0, rfl, Text.referenceAt_zero_iff.2 ⟨follows, Token.reference?_append _ hname⟩⟩
      · refine ⟨(Part.ref name).source.length + offset, by omega, ?_⟩
        exact (Text.referenceAt_append_iff _).2 hoffset
    · rintro ⟨offset, rfl, hoffset⟩
      rcases Text.referenceAt_source_cases hname hoffset with ⟨rfl, rfl⟩ | ⟨next, rfl, hnext⟩
      · exact .inl rfl
      · exact .inr ⟨next, by omega, hnext⟩
  | case3 c rest h ih =>
    rw [scan_of_no_token h, referencesFrom_push, ih]
    constructor
    · rintro ⟨offset, rfl, hoffset⟩
      exact ⟨offset + 1, by omega, Text.referenceAt_cons_iff.2 hoffset⟩
    · rintro ⟨offset, rfl, hoffset⟩
      cases offset with
      | zero => exact (Text.not_referenceAt_zero h other hoffset).elim
      | succ offset => exact ⟨offset, by omega, Text.referenceAt_cons_iff.1 hoffset⟩

theorem mem_references_readPlain :
    (start, other) ∈ (readPlain s).references ↔ Text.ReferenceAt s start other := by
  rw [references, readPlain, mem_referencesFrom_scan]
  simp

end Template

/-- Each character of the text gives way to a piece: the first one of a reference to the value of
the variable, the others of a reference to nothing, and any other character to itself. -/
structure Text.Replaces (store : Store) (s : Text) (pieces : List Text) : Prop where
  length_eq : pieces.length = s.length
  first : ∀ place name, ReferenceAt s place name → pieces[place]? = some (store.valueOf name)
  inside : ∀ start name place, ReferenceAt s start name → start < place →
    place < start + name.length + 2 → pieces[place]? = some []
  outside : ∀ place c, s[place]? = some c →
    (∀ start name, ReferenceAt s start name → place < start ∨ start + name.length + 2 ≤ place) →
    pieces[place]? = some [c]

namespace Text

variable {store : Store} {pieces : List Text}

theorem replaces_nil (store : Store) : Replaces store [] [] where
  length_eq := rfl
  first := by
    intro place name h
    cases h.getElem?
  inside := by
    intro start name place h
    cases h.getElem?
  outside := by
    intro place c h
    cases h

/-- A character at which no reference begins stays in front of the pieces of the rest. -/
theorem Replaces.cons (h : Replaces store s pieces) (hno : ∀ name, ¬ ReferenceAt (c :: s) 0 name) :
    Replaces store (c :: s) ([c] :: pieces) where
  length_eq := by simp [h.length_eq]
  first := by
    intro place name hat
    cases place with
    | zero => exact (hno name hat).elim
    | succ place => exact h.first place name (referenceAt_cons_iff.1 hat)
  inside := by
    intro start name place hat hstart hplace
    cases start with
    | zero => exact (hno name hat).elim
    | succ start =>
      obtain ⟨place, rfl⟩ := Nat.exists_eq_succ_of_ne_zero (Nat.ne_of_gt (by omega : 0 < place))
      exact h.inside start name place (referenceAt_cons_iff.1 hat) (by omega) (by omega)
  outside := by
    intro place d hd hout
    cases place with
    | zero =>
      cases hd
      rfl
    | succ place =>
      refine h.outside place d hd ?_
      intro start name hat
      have := hout (start + 1) name (referenceAt_cons_iff.2 hat)
      omega

/-- The pieces of a reference: its value, and nothing for each of its other characters. -/
def referencePieces (store : Store) (name : Text) : List Text :=
  store.valueOf name :: List.replicate (name.length + 1) []

theorem Replaces.reference (h : Replaces store follows pieces) (hname : isName name = true) :
    Replaces store ((Part.ref name).source ++ follows) (referencePieces store name ++ pieces) := by
  have hsource : (Part.ref name).source.length = name.length + 2 := by simp [Part.source]
  have hpieces : (referencePieces store name).length = name.length + 2 := by
    simp [referencePieces]
  have hfront : ReferenceAt ((Part.ref name).source ++ follows) 0 name :=
    referenceAt_zero_iff.2 ⟨follows, Token.reference?_append follows hname⟩
  have hskip (place : Nat) :
      (referencePieces store name ++ pieces)[name.length + 2 + place]? = pieces[place]? := by
    rw [List.getElem?_append_right (by omega), hpieces, Nat.add_sub_cancel_left]
  refine ⟨?_, ?_, ?_, ?_⟩
  · simp only [List.length_append, hsource, hpieces, h.length_eq]
  · intro place other hat
    rcases referenceAt_source_cases hname hat with ⟨rfl, rfl⟩ | ⟨next, rfl, hnext⟩
    · rfl
    · rw [hskip]
      exact h.first next other hnext
  · intro start other place hat hstart hplace
    rcases referenceAt_source_cases hname hat with ⟨rfl, rfl⟩ | ⟨next, rfl, hnext⟩
    · obtain ⟨k, rfl⟩ := Nat.exists_eq_succ_of_ne_zero (Nat.ne_of_gt hstart)
      rw [List.getElem?_append_left (by omega)]
      show (List.replicate (other.length + 1) [])[k]? = some []
      rw [List.getElem?_replicate, if_pos (by omega)]
    · obtain ⟨k, rfl⟩ := Nat.exists_eq_add_of_le (show name.length + 2 ≤ place by omega)
      rw [hskip]
      exact h.inside next other k hnext (by omega) (by omega)
  · intro place c hc hout
    have hbehind : name.length + 2 ≤ place := by
      have := hout 0 name hfront
      omega
    obtain ⟨k, rfl⟩ := Nat.exists_eq_add_of_le hbehind
    rw [hskip]
    rw [List.getElem?_append_right (by omega), hsource, Nat.add_sub_cancel_left] at hc
    refine h.outside k c hc ?_
    intro start other hat
    have hshifted := (referenceAt_append_iff (Part.ref name).source).2 hat
    have := hout _ other hshifted
    omega

end Text

namespace Template

/-- Step by step, a scan without conversions replaces what it has passed. -/
theorem exists_replaces (store : Store) (s : Text) :
    ∃ pieces, Text.Replaces store s pieces ∧
      (readPlain s).renderPlain store = pieces.flatten := by
  unfold readPlain
  induction s using scan.induct .plain with
  | case1 => exact ⟨[], Text.replaces_nil store, by simp [renderPlain]⟩
  | case2 c rest part follows h ih =>
    obtain ⟨pieces, hpieces, hrender⟩ := ih
    obtain ⟨name, hname, rfl, hs⟩ := Token.exists_of_reference? h
    refine ⟨_, hs ▸ hpieces.reference hname, ?_⟩
    have hflatten : (Text.referencePieces store name).flatten = store.valueOf name := by
      simp [Text.referencePieces]
    rw [scan_of_token h, List.flatten_append, hflatten, ← hrender]
    rfl
  | case3 c rest h ih =>
    obtain ⟨pieces, hpieces, hrender⟩ := ih
    refine ⟨_, hpieces.cons (Text.not_referenceAt_zero h), ?_⟩
    rw [scan_of_no_token h, renderPlain_push, hrender]
    rfl

end Template

/-- A line that is no comment and in no structural form asks for a conversion exactly if its
template has one. -/
theorem Command.read?_convert_iff (hcomment : isComment s = false)
    (hforms : ∀ form ∈ Form.structural, form (Text.trim s) = none) :
    (∃ line, read? s = some (.convert line)) ↔ (Template.read s).hasConversions = true := by
  rw [read?_of_no_form hcomment hforms, ofTemplate]
  split <;> simp_all

/-- A scan skips no token. A template has a conversion exactly if one can be read at some place of
the text, and a line that is printed asks for conversions exactly then. Read without conversions, a
template has the references that stand in the text, one after the other and each of them once, and
it renders as the text with every reference replaced by its value. -/
theorem scan_skips_no_token (s : Text) :
    ((Template.read s).hasConversions = true ↔
      ∃ suffix, suffix <:+ s ∧ (Token.conversion? suffix).isSome = true) ∧
    (Command.isComment s = false →
      (∀ form ∈ Command.Form.structural, form (Text.trim s) = none) →
      ((∃ line, Command.read? s = some (.convert line)) ↔
        ∃ suffix, suffix <:+ s ∧ (Token.conversion? suffix).isSome = true)) ∧
    ((Template.readPlain s).references.Pairwise fun first second => first.1 < second.1) ∧
    (∀ place name, (place, name) ∈ (Template.readPlain s).references ↔
      Text.ReferenceAt s place name) ∧
    ∀ (converter : Converter) (store : Store), ∃ pieces, Text.Replaces store s pieces ∧
      (Template.readPlain s).render converter store = pieces.flatten := by
  have hconversions : (Template.read s).hasConversions = true ↔
      ∃ suffix, suffix <:+ s ∧ (Token.conversion? suffix).isSome = true := by
    simp only [Template.hasConversions_read_iff, Token.isSome_conversion?_iff]
  refine ⟨hconversions, ?_, Template.pairwise_referencesFrom 0 _, ?_, ?_⟩
  · intro hcomment hforms
    exact (Command.read?_convert_iff hcomment hforms).trans hconversions
  · intro place name
    exact Template.mem_references_readPlain
  · intro converter store
    rw [Template.render_of_no_conversions converter store (Template.hasConversions_readPlain s)]
    exact Template.exists_replaces store s

/-- A conversion after one colon too many, with one reference before it and one inside. -/
def tangledLine : Text := "[[a]:::op[[b]]".toList

theorem tangledLine_skips_no_token :
    Command.isComment tangledLine = false ∧
      (∀ form ∈ Command.Form.structural, form (Text.trim tangledLine) = none) ∧
      (∃ line, Command.read? tangledLine = some (.convert line)) ∧
      (1, ['a']) ∈ (Template.readPlain tangledLine).references ∧
      (10, ['b']) ∈ (Template.readPlain tangledLine).references := by
  have hforms : ∀ form ∈ Command.Form.structural, form (Text.trim tangledLine) = none := by decide
  obtain ⟨_, hconvert, _, hreferences, _⟩ := scan_skips_no_token tangledLine
  refine ⟨by decide, hforms, ?_, ?_, ?_⟩
  · exact (hconvert (by decide) hforms).2 ⟨_, List.drop_suffix 5 _, by decide⟩
  · exact (hreferences _ _).2 ⟨by decide, by simp, by decide⟩
  · exact (hreferences _ _).2 ⟨by decide, by simp, by decide⟩

end LineScript
