import LineScript.Proofs.SourceLines
import LineScript.Proofs.TokenGrammar

/-!
Conversions read by byte offsets. Such a reader counts brackets up and down and cuts the text at the
offsets it has added up, and both can go wrong. Main statement: neither ever does, and what is read
is the one token of the grammar that the text begins with.
-/

namespace LineScript

/-- What can go wrong with counts and offsets. -/
inductive Fault where
  /-- A count would fall below zero. -/
  | underflow
  /-- A cut would lie behind the text or inside a character. -/
  | badCut
  deriving DecidableEq, Repr

namespace Text

variable {s front back before middle : Text} {n start stop : Nat} {p : Char → Bool}

theorem byteSize_cons (c : Char) (s : Text) : byteSize (c :: s) = c.utf8Size + byteSize s := rfl

/-- The first `n` bytes and the rest, if the text is that long and no character is cut. -/
def splitBytes? : Nat → Text → Option (Text × Text)
  | 0, s => some ([], s)
  | _ + 1, [] => none
  | n + 1, c :: s =>
    if c.utf8Size ≤ n + 1 then
      (splitBytes? (n + 1 - c.utf8Size) s).map fun (front, back) => (c :: front, back)
    else none

theorem splitBytes?_append (front back : Text) :
    splitBytes? (byteSize front) (front ++ back) = some (front, back) := by
  induction front with
  | nil => cases back <;> rfl
  | cons c front ih =>
    have hpos := Char.utf8Size_pos c
    obtain ⟨n, hn⟩ : ∃ n, byteSize (c :: front) = n + 1 :=
      Nat.exists_eq_add_one.2 (byteSize_pos (by simp))
    have hsize := byteSize_cons c front
    have hrest : n + 1 - c.utf8Size = byteSize front := by omega
    rw [hn, List.cons_append, splitBytes?, if_pos (by omega), hrest, ih]
    rfl

theorem eq_append_of_splitBytes? (h : splitBytes? n s = some (front, back)) :
    s = front ++ back ∧ byteSize front = n := by
  induction s generalizing n front with
  | nil =>
    cases n with
    | zero =>
      cases h
      exact ⟨rfl, rfl⟩
    | succ n => cases h
  | cons c s ih =>
    cases n with
    | zero =>
      cases h
      exact ⟨rfl, rfl⟩
    | succ n =>
      rw [splitBytes?] at h
      split at h
      · rename_i hfits
        obtain ⟨⟨rest, _⟩, hrest, heq⟩ := Option.map_eq_some_iff.1 h
        cases heq
        obtain ⟨rfl, hsize⟩ := ih hrest
        refine ⟨rfl, ?_⟩
        rw [byteSize_cons, hsize]
        omega
      · cases h

/-- The bytes from one offset up to another. -/
def slice (s : Text) (start stop : Nat) : Except Fault Text :=
  match splitBytes? stop s with
  | none => .error .badCut
  | some (front, _) =>
    match splitBytes? start front with
    | none => .error .badCut
    | some (_, middle) => .ok middle

/-- A slice is taken exactly if both its ends fall between characters of the text. -/
theorem slice_eq_ok :
    slice s start stop = .ok middle ↔ ∃ before after, s = before ++ middle ++ after ∧
      byteSize before = start ∧ byteSize (before ++ middle) = stop := by
  constructor
  · intro h
    unfold slice at h
    split at h
    · cases h
    · rename_i front after hstop
      split at h
      · cases h
      · rename_i before middle hstart
        cases h
        obtain ⟨rfl, hsize⟩ := eq_append_of_splitBytes? hstart
        obtain ⟨rfl, hsizes⟩ := eq_append_of_splitBytes? hstop
        exact ⟨before, after, rfl, hsize, hsizes⟩
  · rintro ⟨before, after, rfl, rfl, rfl⟩
    simp only [slice, splitBytes?_append]

/-- The offset of the first character with a property. -/
def offset? (p : Char → Bool) : Text → Option Nat
  | [] => none
  | c :: s => if p c then some 0 else (offset? p s).map (c.utf8Size + ·)

theorem offset?_append (front back : Text) (h : ∀ c ∈ front, p c = false) :
    offset? p (front ++ back) = (offset? p back).map (byteSize front + ·) := by
  induction front with
  | nil =>
    cases hback : offset? p back <;> simp [hback, byteSize]
  | cons c front ih =>
    obtain ⟨hc, hfront⟩ := List.forall_mem_cons.1 h
    rw [List.cons_append, offset?, if_neg (by simp [hc]), ih hfront, Option.map_map]
    refine congrArg (Option.map · _) (funext fun n => ?_)
    simp only [Function.comp_apply, byteSize_cons]
    omega

end Text

namespace Token

variable {s operator value follows : Text} {part : Part} {depth : Nat}

/-- Where the bracket ends that closes the last open one, with so many open at an offset. -/
def closingOffset (depth offset : Nat) : Text → Except Fault (Option Nat)
  | [] => .ok none
  | c :: rest =>
    if c = '[' then closingOffset (depth + 1) (offset + c.utf8Size) rest
    else if c = ']' then
      match depth with
      | 0 => .error .underflow
      | 1 => .ok (some (offset + 1))
      | depth + 2 => closingOffset (depth + 1) (offset + c.utf8Size) rest
    else closingOffset depth (offset + c.utf8Size) rest

/-- The number of bytes between brackets at the start of the text, brackets included. -/
def bracketedSize (s : Text) : Except Fault (Option Nat) :=
  if s.head? = some '[' then closingOffset 0 0 s else .ok none

/-- A conversion at the start of the text and the number of its bytes. -/
def conversionAt (s : Text) : Except Fault (Option (Part × Nat)) :=
  match Text.after? "::".toList s with
  | none => .ok none
  | some body =>
    match Text.offset? (! isOperatorChar ·) body with
    | none | some 0 => .ok none
    | some operatorSize => do
      let bracketed ← Text.slice body operatorSize (Text.byteSize body)
      match ← bracketedSize bracketed with
      | none => .ok none
      | some 0 => .error .underflow
      | some (size + 1) => do
        let consumed := 2 + operatorSize + (size + 1)
        let operator ← Text.slice body 0 operatorSize
        let value ← Text.slice bracketed 1 size
        let raw ← Text.slice s 0 consumed
        .ok (some (.conversion operator (Operand.read value) raw, consumed))

theorem close?_opening (depth : Nat) (rest : Text) :
    close? depth ('[' :: rest)
      = (close? (depth + 1) rest).map fun (inner, follows) => ('[' :: inner, follows) := rfl

theorem close?_closing (depth : Nat) (rest : Text) :
    close? (depth + 1) (']' :: rest)
      = (close? depth rest).map fun (inner, follows) => (']' :: inner, follows) := rfl

theorem close?_other {c : Char} (depth : Nat) (rest : Text) (hopening : c ≠ '[')
    (hclosing : c ≠ ']') :
    close? depth (c :: rest)
      = (close? depth rest).map fun (inner, follows) => (c :: inner, follows) := by
  simp only [close?, if_neg hclosing, if_neg hopening]

/-- With a bracket open, the count stays above zero up to the bracket that closes it. -/
theorem closingOffset_succ (depth offset : Nat) (s : Text) :
    closingOffset (depth + 1) offset s
      = .ok ((close? depth s).map fun (inner, _) => offset + Text.byteSize inner + 1) := by
  -- A character before the closing bracket moves the offset by its own bytes.
  have hmove (offset : Nat) (c : Char) (found : Option (Text × Text)) :
      (found.map fun (inner, _) => offset + c.utf8Size + Text.byteSize inner + 1)
        = (found.map fun (inner, follows) => (c :: inner, follows)).map
          fun (inner, _) => offset + Text.byteSize inner + 1 := by
    cases found with
    | none => rfl
    | some parts => simp [Text.byteSize_cons, Nat.add_assoc]
  induction s generalizing depth offset with
  | nil => rfl
  | cons c s ih =>
    by_cases hopening : c = '['
    · subst hopening
      rw [close?_opening, ← hmove]
      exact ih (depth + 1) _
    · by_cases hclosing : c = ']'
      · subst hclosing
        cases depth with
        | zero => rfl
        | succ depth =>
          rw [close?_closing, ← hmove]
          exact ih depth _
      · rw [close?_other depth s hopening hclosing, ← hmove]
        simp only [closingOffset, if_neg hopening, if_neg hclosing]
        exact ih depth _

/-- The brackets at the start of a text end where the value between them is closed. -/
theorem bracketedSize_cons (rest : Text) :
    bracketedSize ('[' :: rest)
      = .ok ((close? 0 rest).map fun (value, _) => Text.byteSize value + 2) := by
  have h := closingOffset_succ 0 1 rest
  have hsize (value : Text) : 1 + Text.byteSize value + 1 = Text.byteSize value + 2 := by omega
  simp only [hsize] at h
  exact h

theorem bracketedSize_of_head? (h : s.head? ≠ some '[') : bracketedSize s = .ok none := by
  rw [bracketedSize, if_neg h]

/-- The brackets of every text can be counted. -/
theorem bracketedSize_ne_error (s : Text) (fault : Fault) : bracketedSize s ≠ .error fault := by
  by_cases h : s.head? = some '['
  · obtain ⟨rest, rfl⟩ := List.head?_eq_some_iff.1 h
    rw [bracketedSize_cons]
    simp
  · rw [bracketedSize_of_head? h]
    simp

/-- Where the operator of a conversion ends, if something is behind it. -/
theorem offset?_operator {c : Char} (rest : Text)
    (hchars : ∀ c ∈ operator, isOperatorChar c = true) (hc : isOperatorChar c = false) :
    Text.offset? (! isOperatorChar ·) (operator ++ c :: rest) = some (Text.byteSize operator) := by
  rw [Text.offset?_append operator (c :: rest) (by simpa using hchars), Text.offset?,
    if_pos (by simp [hc])]
  rfl

theorem byteSize_conversionText (operator value : Text) :
    Text.byteSize (conversionText operator value)
      = 2 + Text.byteSize operator + (Text.byteSize value + 2) := by
  have hcolons : Text.byteSize "::".toList = 2 := by decide
  have hopening : Text.byteSize ['['] = 1 := by decide
  have hclosing : Text.byteSize [']'] = 1 := by decide
  simp only [conversionText, Text.byteSize_append]
  omega

/-- All cuts fall between characters, and what they cut out are the parts of the conversion. -/
theorem conversionAt_of_close? {bracketed : Text} (hne : operator ≠ [])
    (hchars : ∀ c ∈ operator, isOperatorChar c = true)
    (hclose : close? 0 bracketed = some (value, follows)) :
    conversionAt ("::".toList ++ (operator ++ '[' :: bracketed))
      = .ok (some (.conversion operator (Operand.read value) (conversionText operator value),
          Text.byteSize (conversionText operator value))) := by
  have hvalue := eq_append_of_close? hclose
  have hbody : Text.after? "::".toList ("::".toList ++ (operator ++ '[' :: bracketed))
      = some (operator ++ '[' :: bracketed) := Text.after?_eq_some.2 rfl
  obtain ⟨n, hn⟩ : ∃ n, Text.byteSize operator = n + 1 :=
    Nat.exists_eq_add_one.2 (Text.byteSize_pos hne)
  have hbracket : isOperatorChar '[' = false := by decide
  have hoffset := offset?_operator bracketed hchars hbracket
  rw [hn] at hoffset
  have hbracketed : Text.slice (operator ++ '[' :: bracketed) (n + 1)
      (Text.byteSize (operator ++ '[' :: bracketed)) = .ok ('[' :: bracketed) :=
    Text.slice_eq_ok.2 ⟨operator, [], by simp, hn, rfl⟩
  have hsize : bracketedSize ('[' :: bracketed) = .ok (some (Text.byteSize value + 1 + 1)) := by
    rw [bracketedSize_cons, hclose]
    rfl
  have hoperatorCut : Text.slice (operator ++ '[' :: bracketed) 0 (n + 1) = .ok operator :=
    Text.slice_eq_ok.2 ⟨[], '[' :: bracketed, rfl, rfl, hn⟩
  have hvalueCut : Text.slice ('[' :: bracketed) 1 (Text.byteSize value + 1) = .ok value := by
    refine Text.slice_eq_ok.2 ⟨['['], ']' :: follows, by simp [hvalue], by decide, ?_⟩
    rw [Text.byteSize_append, Nat.add_comm]
    rfl
  have hrawCut : Text.slice ("::".toList ++ (operator ++ '[' :: bracketed)) 0
      (2 + (n + 1) + (Text.byteSize value + 1 + 1)) = .ok (conversionText operator value) := by
    refine Text.slice_eq_ok.2 ⟨[], follows, by simp [hvalue, conversionText], rfl, ?_⟩
    rw [List.nil_append, byteSize_conversionText, hn]
  rw [byteSize_conversionText, hn]
  simp only [conversionAt, hbody, hoffset, hbracketed, hsize, hoperatorCut, hvalueCut, hrawCut,
    bind, Except.bind]

/-- Without an operator, an opening bracket behind it and one that closes it, there is nothing. -/
theorem conversionAt_of_none {body : Text}
    (h : body.takeWhile isOperatorChar = [] ∨
      ∀ bracketed, Text.after? ['['] (body.dropWhile isOperatorChar) = some bracketed →
        close? 0 bracketed = none) :
    conversionAt ("::".toList ++ body) = .ok none := by
  have hbody : Text.after? "::".toList ("::".toList ++ body) = some body :=
    Text.after?_eq_some.2 rfl
  have hsplit := List.takeWhile_append_dropWhile (p := isOperatorChar) (l := body)
  have hchars : ∀ c ∈ body.takeWhile isOperatorChar, isOperatorChar c = true :=
    fun c hc => List.mem_takeWhile_imp hc
  cases hrest : body.dropWhile isOperatorChar with
  | nil =>
    have hoffset : Text.offset? (! isOperatorChar ·) body = none := by
      rw [← hsplit, hrest, Text.offset?_append _ _ (by simpa using hchars)]
      rfl
    simp only [conversionAt, hbody, hoffset]
  | cons c rest =>
    have hc : isOperatorChar c = false := by
      have hhead := List.head?_dropWhile_not isOperatorChar body
      rwa [hrest] at hhead
    have hoffset := offset?_operator rest hchars hc
    rw [← hrest, hsplit] at hoffset
    by_cases hempty : body.takeWhile isOperatorChar = []
    · rw [hempty] at hoffset
      have hzero : Text.offset? (! isOperatorChar ·) body = some 0 := hoffset
      simp only [conversionAt, hbody, hzero]
    · obtain ⟨n, hn⟩ : ∃ n, Text.byteSize (body.takeWhile isOperatorChar) = n + 1 :=
        Nat.exists_eq_add_one.2 (Text.byteSize_pos hempty)
      rw [hn] at hoffset
      have hbracketed : Text.slice body (n + 1) (Text.byteSize body) = .ok (c :: rest) :=
        Text.slice_eq_ok.2 ⟨_, [], by rw [← hrest, hsplit, List.append_nil], hn,
          by rw [← hrest, hsplit]⟩
      have hsize : bracketedSize (c :: rest) = .ok none := by
        by_cases hopening : c = '['
        · subst hopening
          have hclose : close? 0 rest = none := by
            refine (h.resolve_left hempty) rest ?_
            rw [hrest]
            exact Text.after?_eq_some.2 rfl
          rw [bracketedSize_cons, hclose]
          rfl
        · exact bracketedSize_of_head? (by simpa using hopening)
      simp only [conversionAt, hbody, hoffset, hbracketed, hsize, bind, Except.bind]

/-- Read by offsets, a text gives the conversion that it begins with. -/
theorem conversionAt_eq (s : Text) :
    conversionAt s
      = .ok ((conversion? s).map fun (part, _) => (part, Text.byteSize part.source)) := by
  cases hbody : Text.after? "::".toList s with
  | none => simp only [conversionAt, conversion?, hbody, Option.map_none]
  | some body =>
    obtain rfl := Text.after?_eq_some.1 hbody
    cases hread : conversion? ("::".toList ++ body) with
    | none =>
      refine conversionAt_of_none ?_
      by_cases hempty : body.takeWhile isOperatorChar = []
      · exact .inl hempty
      · refine .inr fun bracketed hbracketed => ?_
        simpa only [conversion?, hbody, if_neg hempty, hbracketed, Option.map_eq_none_iff]
          using hread
    | some found =>
      obtain ⟨part, follows⟩ := found
      obtain ⟨operator, inner, hne, hchars, hinner, rfl, hs⟩ := exists_of_conversion? hread
      have htext : "::".toList ++ body
          = "::".toList ++ (operator ++ '[' :: (inner ++ ']' :: follows)) := by
        rw [hs]
        simp [Part.source, conversionText]
      rw [htext]
      exact conversionAt_of_close? hne hchars (close?_append follows hinner)

/-- The text begins with this conversion, and this follows it. -/
structure ConversionBefore (s operator value follows : Text) : Prop where
  whole : s = "::".toList ++ operator ++ ['['] ++ value ++ [']'] ++ follows
  operator_ne : operator ≠ []
  operator_chars : ∀ c ∈ operator, c.isAlphanum = true ∨ c ∈ ['_', '>', '-']
  balanced : Text.Balanced value

/-- A conversion is found exactly where the grammar has one. -/
theorem conversion?_eq_some :
    conversion? s = some (part, follows) ↔ ∃ operator value,
      ConversionBefore s operator value follows ∧
        part = .conversion operator (Operand.read value) (conversionText operator value) := by
  constructor
  · intro h
    obtain ⟨operator, value, hne, hchars, hvalue, rfl, hs⟩ := exists_of_conversion? h
    exact ⟨operator, value, ⟨hs, hne, fun c hc => isOperatorChar_iff.1 (hchars c hc), hvalue⟩, rfl⟩
  · rintro ⟨operator, value, ⟨rfl, hne, hchars, hvalue⟩, rfl⟩
    exact conversion?_append follows hne (fun c hc => isOperatorChar_iff.2 (hchars c hc)) hvalue

/-- No text begins with two conversions, one longer than the other. -/
theorem ConversionBefore.unique {operator' value' follows' : Text}
    (h : ConversionBefore s operator value follows)
    (h' : ConversionBefore s operator' value' follows') :
    operator' = operator ∧ value' = value ∧ follows' = follows := by
  have hread := conversion?_eq_some.2 ⟨operator, value, h, rfl⟩
  have hread' := conversion?_eq_some.2 ⟨operator', value', h', rfl⟩
  rw [hread] at hread'
  obtain ⟨hpart, rfl⟩ := Prod.mk.inj (Option.some.inj hread')
  obtain ⟨rfl, _, hraw⟩ := Part.conversion.inj hpart
  refine ⟨rfl, ?_, rfl⟩
  simpa [conversionText] using hraw.symm

end Token

/-- A conversion is read exactly where the grammar has one. It is found at the front of a text if
and only if the text begins with two colons, an operator and a value between brackets that balances;
the text begins with one such token only, and the part carries its operator, its value as an operand
and the token itself. Read by offsets, a text gives the same part with the number of bytes of the
token: no count falls below zero, and every cut falls between characters of the text. -/
theorem conversions_are_read_exactly (s : Text) :
    (∀ part follows, Token.conversion? s = some (part, follows) ↔
      ∃ operator value, Token.ConversionBefore s operator value follows ∧
        part = .conversion operator (Operand.read value)
          ("::".toList ++ operator ++ ['['] ++ value ++ [']'])) ∧
    (∀ operator value follows operator' value' follows',
      Token.ConversionBefore s operator value follows →
      Token.ConversionBefore s operator' value' follows' →
      operator' = operator ∧ value' = value ∧ follows' = follows) ∧
    (∀ part k, Token.conversionAt s = .ok (some (part, k)) ↔
      ∃ operator value follows, Token.ConversionBefore s operator value follows ∧
        part = .conversion operator (Operand.read value)
          ("::".toList ++ operator ++ ['['] ++ value ++ [']']) ∧
        k = (Text.utf8 ("::".toList ++ operator ++ ['['] ++ value ++ [']'])).length) ∧
    ∀ fault, Token.conversionAt s ≠ .error fault ∧ Token.bracketedSize s ≠ .error fault := by
  refine ⟨fun _ _ => Token.conversion?_eq_some, ?_, ?_, ?_⟩
  · intro _ _ _ _ _ _ h h'
    exact h.unique h'
  · intro part k
    rw [Token.conversionAt_eq, Except.ok.injEq, Option.map_eq_some_iff]
    constructor
    · rintro ⟨⟨part, follows⟩, hread, heq⟩
      obtain ⟨operator, value, hbefore, rfl⟩ := Token.conversion?_eq_some.1 hread
      cases heq
      exact ⟨operator, value, follows, hbefore, rfl, (Text.length_utf8 _).symm⟩
    · rintro ⟨operator, value, follows, hbefore, rfl, rfl⟩
      refine ⟨_, Token.conversion?_eq_some.2 ⟨operator, value, hbefore, rfl⟩, ?_⟩
      rw [Text.length_utf8]
      rfl
  · intro fault
    rw [Token.conversionAt_eq]
    exact ⟨by simp, Token.bracketedSize_ne_error s fault⟩

/-- A value with brackets and characters of several bytes, and a bracket too many behind it. -/
def wideConversion : Text := "::a>b[é[字]]]".toList

theorem wideConversion_is_read_exactly :
    Token.ConversionBefore wideConversion "a>b".toList "é[字]".toList [']'] ∧
      Token.conversionAt wideConversion
        = .ok (some (.conversion "a>b".toList (.literal "é[字]".toList)
          "::a>b[é[字]]".toList, 14)) ∧
      ∀ operator value follows,
        Token.ConversionBefore wideConversion operator value follows → follows = [']'] := by
  obtain ⟨_, hunique, hoffsets, _⟩ := conversions_are_read_exactly wideConversion
  have hbalanced : Text.Balanced "é[字]".toList := by
    have hclosing : Text.Closes 1 [']'] := (Text.closes_cons_iff (by decide)).2 Text.closes_nil
    have hwide : Text.Closes 1 "字]".toList := (Text.closes_cons_iff (by decide)).2 hclosing
    have hopening : Text.Closes 0 "[字]".toList := (Text.closes_cons_iff (by decide)).2 hwide
    exact (Text.closes_cons_iff (by decide)).2 hopening
  have hbefore : Token.ConversionBefore wideConversion "a>b".toList "é[字]".toList [']'] :=
    ⟨rfl, by decide, by simp, hbalanced⟩
  refine ⟨hbefore, (hoffsets _ _).2 ⟨_, _, _, hbefore, rfl, rfl⟩, ?_⟩
  intro operator value follows h
  exact (hunique _ _ _ _ _ _ hbefore h).2.2

end LineScript
