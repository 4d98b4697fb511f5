import LineScript.Render
import Mathlib.Data.List.Chain
import Mathlib.Data.List.TakeWhile

/-!
What scanning a text gives. Main statement: the parts of a template spell the text that was scanned,
and they are in a normal form: tokens are well formed, and literals are as long as they can be.
-/

namespace LineScript

/-- With that many brackets open before it, the text closes them all, and none that is not open. -/
structure Text.Closes (depth : Nat) (s : Text) : Prop where
  closed : s.count ']' = s.count '[' + depth
  open_before : ∀ p, p <+: s → p.count ']' ≤ p.count '[' + depth

/-- As many brackets are closed as are opened, and none is closed before it is opened. -/
def Text.Balanced (s : Text) : Prop := Text.Closes 0 s

theorem Text.closes_nil : Text.Closes 0 [] := by
  refine ⟨rfl, ?_⟩
  intro p hp
  rw [List.prefix_nil.1 hp]
  simp

theorem Text.closes_cons_iff {s : Text} {depth depth' : Nat} {c : Char}
    (hc : [c].count ']' + depth' = [c].count '[' + depth) :
    Text.Closes depth (c :: s) ↔ Text.Closes depth' s := by
  have hcount (x : Char) (t : Text) : (c :: t).count x = [c].count x + t.count x := by
    rw [← List.count_append]
    rfl
  have hclosing := hcount ']' s
  have hopening := hcount '[' s
  constructor
  · rintro ⟨hclosed, hopen⟩
    refine ⟨by omega, ?_⟩
    intro p hp
    have := hopen (c :: p) ((List.prefix_cons_inj c).2 hp)
    have hclosing := hcount ']' p
    have hopening := hcount '[' p
    omega
  · rintro ⟨hclosed, hopen⟩
    refine ⟨by omega, ?_⟩
    intro p hp
    rcases List.prefix_cons_iff.1 hp with rfl | ⟨q, rfl, hq⟩
    · simp
    · have := hopen q hq
      have hclosing := hcount ']' q
      have hopening := hcount '[' q
      omega

namespace Part

def isLiteral : Part → Bool
  | literal _ => true
  | _ => false

/-- Can come out of a scan: a literal has some text, a reference has a name, and a conversion was
written with an operator and a value whose brackets balance. -/
def Sound : Part → Prop
  | literal text => text ≠ []
  | ref name => isName name = true
  | conversion operator value raw =>
    operator ≠ [] ∧ (∀ c ∈ operator, Token.isOperatorChar c = true) ∧
      ∃ inner, Text.Balanced inner ∧ value = Operand.read inner ∧
        raw = Token.conversionText operator inner

end Part

/-- Every part is sound, and no two literals are neighbours. -/
structure Template.Normal (t : Template) : Prop where
  sound : ∀ part ∈ t, part.Sound
  apart : t.IsChain fun part next => ¬ (part.isLiteral = true ∧ next.isLiteral = true)

namespace Token

variable {mode : Mode} {s inner follows : Text} {part : Part} {depth : Nat}

theorem closes_of_close? (h : close? depth s = some (inner, follows)) :
    Text.Closes depth inner := by
  induction s generalizing depth inner with
  | nil => simp [close?] at h
  | cons c rest ih =>
    unfold close? at h
    split at h
    · rename_i hc
      subst hc
      cases depth with
      | zero =>
        cases h
        exact Text.closes_nil
      | succ depth =>
        obtain ⟨⟨tail, after⟩, hr, he⟩ := Option.map_eq_some_iff.1 h
        cases he
        exact (Text.closes_cons_iff (by simp; omega)).2 (ih hr)
    · rename_i hc
      obtain ⟨⟨tail, after⟩, hr, he⟩ := Option.map_eq_some_iff.1 h
      cases he
      refine (Text.closes_cons_iff ?_).2 (ih hr)
      by_cases ho : c = '['
      · subst ho
        simp
        omega
      · simp [hc, ho]

theorem exists_of_reference? (h : reference? s = some (part, follows)) :
    ∃ name, isName name = true ∧ part = .ref name ∧ s = part.source ++ follows := by
  unfold reference? at h
  split at h <;> try contradiction
  rename_i body hb
  split at h <;> try contradiction
  rename_i name rest hc
  split at h <;> try contradiction
  rename_i hname
  cases h
  refine ⟨name, hname, rfl, ?_⟩
  rw [Text.after?_eq_some.1 hb, Text.eq_append_of_cut? hc]
  simp [Part.source]

theorem exists_of_conversion? (h : conversion? s = some (part, follows)) :
    ∃ operator inner, operator ≠ [] ∧ (∀ c ∈ operator, isOperatorChar c = true) ∧
      Text.Balanced inner ∧
      part = .conversion operator (Operand.read inner) (conversionText operator inner) ∧
      s = part.source ++ follows := by
  unfold conversion? at h
  split at h <;> try contradiction
  rename_i body hb
  dsimp only at h
  split at h <;> try contradiction
  rename_i hne
  split at h <;> try contradiction
  rename_i bracketed hv
  obtain ⟨⟨inner, rest⟩, hr, he⟩ := Option.map_eq_some_iff.1 h
  cases he
  refine ⟨body.takeWhile isOperatorChar, inner, hne, ?_, closes_of_close? hr, rfl, ?_⟩
  · intro c hc
    exact List.mem_takeWhile_imp hc
  · have hbody := List.takeWhile_append_dropWhile (p := isOperatorChar) (l := body)
    rw [Text.after?_eq_some.1 hv, eq_append_of_close? hr] at hbody
    calc
      s = "::".toList ++ body := Text.after?_eq_some.1 hb
      _ = "::".toList ++
          (body.takeWhile isOperatorChar ++ (['['] ++ (inner ++ [']'] ++ rest))) := by rw [hbody]
      _ = conversionText (body.takeWhile isOperatorChar) inner ++ rest := by
        simp [conversionText]

/-- A token spells what it was read from; it is sound, and it is not a literal. -/
theorem token_of_any? (h : any? mode s = some (part, follows)) :
    s = part.source ++ follows ∧ part.Sound ∧ part.isLiteral = false ∧
      (mode = .plain → part.isConversion = false) := by
  have href (h : reference? s = some (part, follows)) :
      s = part.source ++ follows ∧ part.Sound ∧ part.isLiteral = false ∧
        (mode = .plain → part.isConversion = false) := by
    obtain ⟨name, hname, rfl, hs⟩ := exists_of_reference? h
    exact ⟨hs, hname, rfl, fun _ => rfl⟩
  cases mode with
  | plain => exact href h
  | full =>
    rcases Option.or_eq_some_iff.1 h with h | ⟨-, h⟩
    · obtain ⟨operator, inner, hne, hchars, hinner, rfl, hs⟩ := exists_of_conversion? h
      exact ⟨hs, ⟨hne, hchars, inner, hinner, rfl, rfl⟩, rfl, fun hmode => by cases hmode⟩
    · exact href h

end Token

namespace Template

variable {t : Template} {part : Part}

/-- Whatever parts are turned into, a character that is put in front comes out in front, as long as
literals stay as they are. -/
theorem flatMap_push {f : Part → Text} (hf : ∀ text, f (.literal text) = text) (c : Char)
    (t : Template) : (push c t).flatMap f = c :: t.flatMap f := by
  unfold push
  split <;> simp [hf]

theorem source_push (c : Char) (t : Template) : (push c t).source = c :: t.source :=
  flatMap_push (fun _ => rfl) c t

theorem renderPlain_push (store : Store) (c : Char) (t : Template) :
    (push c t).renderPlain store = c :: t.renderPlain store :=
  flatMap_push (fun _ => rfl) c t

theorem render_push (converter : Converter) (store : Store) (c : Char) (t : Template) :
    (push c t).render converter store = c :: t.render converter store :=
  flatMap_push (fun _ => rfl) c t

theorem normal_nil : Normal [] := ⟨by simp, .nil⟩

theorem Normal.cons (h : t.Normal) (hsound : part.Sound) (hliteral : part.isLiteral = false) :
    Normal (part :: t) := by
  refine ⟨List.forall_mem_cons.2 ⟨hsound, h.sound⟩, ?_⟩
  refine h.apart.cons ?_
  intro next _
  simp [hliteral]

/-- A character goes into the literal at the front or makes one before a token. -/
theorem Normal.push (h : t.Normal) (c : Char) : (push c t).Normal := by
  unfold Template.push
  split
  · rename_i text parts
    obtain ⟨hsound, hapart⟩ := h
    refine ⟨?_, ?_⟩
    · intro part hpart
      rcases List.mem_cons.1 hpart with rfl | hpart
      · simp [Part.Sound]
      · exact hsound part (List.mem_cons_of_mem _ hpart)
    · rw [List.isChain_cons] at hapart ⊢
      exact hapart
  · rename_i hfirst
    refine ⟨List.forall_mem_cons.2 ⟨by simp [Part.Sound], h.sound⟩, h.apart.cons ?_⟩
    intro next hnext hboth
    cases next with
    | literal text =>
      obtain ⟨rest, rfl⟩ := List.head?_eq_some_iff.1 hnext
      exact hfirst text rest rfl
    | ref | conversion => cases hboth.2

theorem source_scan (mode : Token.Mode) (s : Text) : (scan mode s).source = s := by
  induction s using scan.induct mode with
  | case1 => simp [source]
  | case2 c rest part follows h ih =>
    have hs := (Token.token_of_any? h).1
    rw [scan_of_token h, hs]
    simpa [source] using ih
  | case3 c rest h ih => rw [scan_of_no_token h, source_push, ih]

theorem normal_scan (mode : Token.Mode) (s : Text) : (scan mode s).Normal := by
  induction s using scan.induct mode with
  | case1 =>
    rw [scan_nil]
    exact normal_nil
  | case2 c rest part follows h ih =>
    obtain ⟨_, hsound, hliteral, _⟩ := Token.token_of_any? h
    rw [scan_of_token h]
    exact ih.cons hsound hliteral
  | case3 c rest h ih =>
    rw [scan_of_no_token h]
    exact ih.push c

theorem hasConversions_push (c : Char) (t : Template) :
    (push c t).hasConversions = t.hasConversions := by
  unfold push
  split <;> simp [hasConversions, Part.isConversion]

theorem hasConversions_readPlain (s : Text) : (readPlain s).hasConversions = false := by
  unfold readPlain
  induction s using scan.induct .plain with
  | case1 => simp [hasConversions]
  | case2 c rest part follows h ih =>
    obtain ⟨_, _, _, hplain⟩ := Token.token_of_any? h
    rw [scan_of_token h]
    simpa [hasConversions, hplain rfl] using ih
  | case3 c rest h ih => rw [scan_of_no_token h, hasConversions_push, ih]

/-- Without conversions, nothing is asked of the converter. -/
theorem render_of_no_conversions (converter : Converter) (store : Store)
    (h : t.hasConversions = false) : t.render converter store = t.renderPlain store := by
  have hparts : ∀ part ∈ t, part.isConversion = false := by simpa [hasConversions] using h
  rw [render, renderPlain, List.flatMap_def, List.flatMap_def]
  congr 1
  refine List.map_congr_left ?_
  intro part hpart
  cases part with
  | literal | ref => rfl
  | conversion => cases hparts _ hpart

end Template

/-- Reading a template loses nothing and gives a normal form, with conversions or without. Read
without, it has none, so that a conversion whose operator is unknown is scanned only once more. -/
theorem template_spells_text (s : Text) :
    (Template.read s).source = s ∧ (Template.read s).Normal ∧
      (Template.readPlain s).source = s ∧ (Template.readPlain s).Normal ∧
      (∀ part ∈ Template.readPlain s, part.isConversion = false) ∧
      ∀ (converter : Converter) (store : Store),
        (Template.readPlain s).render converter store
          = (Template.readPlain s).renderPlain store := by
  have hplain := Template.hasConversions_readPlain s
  refine ⟨Template.source_scan .full s, Template.normal_scan .full s, Template.source_scan .plain s,
    Template.normal_scan .plain s, ?_, ?_⟩
  · simpa [Template.hasConversions] using hplain
  · intro converter store
    exact Template.render_of_no_conversions converter store hplain

end LineScript
