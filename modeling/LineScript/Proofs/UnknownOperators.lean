import LineScript.Proofs.References

/-!
Conversions with unknown operators. Main statement: where all of a template's operators are unknown,
it renders as if no conversion had been looked for, since no reference reaches over the end of a
conversion.
-/

namespace LineScript

variable {first s name : Text} {c : Char} {converter : Converter} {store : Store}

/-- The last character, if there is one, is a closing bracket. -/
def Text.EndsClosed (s : Text) : Prop := ∀ x ∈ s.getLast?, x = ']'

theorem Text.EndsClosed.of_append (first : Text) (h : EndsClosed (first ++ s)) : EndsClosed s := by
  intro x hx
  apply h
  rw [List.getLast?_append, Option.mem_def.1 hx]
  rfl

theorem Text.endsClosed_conversionText (operator inner : Text) :
    EndsClosed (Token.conversionText operator inner) := by
  intro x hx
  rw [Token.conversionText, List.getLast?_concat] at hx
  exact (Option.some.inj hx).symm

/-- What follows a closing bracket makes no reference of what begins before it. -/
theorem Token.reference?_append_eq_none (follows : Text) (hend : Text.EndsClosed (c :: s))
    (h : reference? (c :: s) = none) : reference? (c :: s ++ follows) = none := by
  cases hread : reference? (c :: s ++ follows) with
  | none => rfl
  | some token =>
    obtain ⟨part, rest⟩ := token
    obtain ⟨name, hname, rfl, hs⟩ := exists_of_reference? hread
    obtain ⟨rfl, htail⟩ := List.cons.inj hs
    have hclosed : ']' ∈ s := by
      obtain ⟨last, hlast⟩ : ∃ last, ('[' :: s).getLast? = some last := ⟨_, List.getLast?_cons⟩
      have hmem := List.mem_of_getLast? hlast
      rw [hend last hlast] at hmem
      simpa using hmem
    obtain ⟨before, after, rfl, hbefore⟩ := List.eq_append_cons_of_mem hclosed
    -- Both texts are cut at their first closing bracket, so the names are one.
    have hsame : before ++ [']'] ++ (after ++ follows) = name ++ [']'] ++ rest := by
      simpa using htail
    obtain ⟨rfl, _⟩ :=
      Text.append_singleton_inj hbefore (not_mem_of_isName hname (by decide)) hsame
    have hshort := reference?_append after hname
    have htext : (Part.ref before).source ++ after = '[' :: (before ++ ']' :: after) := by
      simp [Part.source]
    rw [htext, h] at hshort
    cases hshort

namespace Template

variable {part : Part}

/-- A text can be rendered in two parts if the first ends in a closing bracket. -/
theorem renderPlain_append (store : Store) (follows : Text) (hend : Text.EndsClosed first) :
    (readPlain (first ++ follows)).renderPlain store
      = (readPlain first).renderPlain store ++ (readPlain follows).renderPlain store := by
  unfold readPlain
  induction first using scan.induct .plain with
  | case1 => simp [renderPlain]
  | case2 c rest part tail h ih =>
    obtain ⟨name, hname, rfl, hs⟩ := Token.exists_of_reference? h
    have hlonger : Token.any? .plain (c :: (rest ++ follows))
        = some (.ref name, tail ++ follows) := by
      rw [← List.cons_append, hs, List.append_assoc]
      exact Token.reference?_append _ hname
    rw [hs] at hend
    rw [List.cons_append, scan_of_token hlonger, scan_of_token h]
    show store.valueOf name ++ (scan .plain (tail ++ follows)).renderPlain store
      = store.valueOf name ++ (scan .plain tail).renderPlain store
        ++ (scan .plain follows).renderPlain store
    rw [ih (hend.of_append _), List.append_assoc]
  | case3 c rest h ih =>
    have hlonger : Token.any? .plain (c :: (rest ++ follows)) = none :=
      Token.reference?_append_eq_none follows hend h
    have hrest : Text.EndsClosed rest := Text.EndsClosed.of_append [c] hend
    rw [List.cons_append, scan_of_no_token hlonger, scan_of_no_token h, renderPlain_push,
      renderPlain_push, ih hrest, List.cons_append]

/-- A character put in front of a template leaves its tokens in it. -/
theorem mem_push {t : Template} (h : part ∈ t) (hliteral : part.isLiteral = false) :
    part ∈ push c t := by
  unfold push
  split
  · rcases List.mem_cons.1 h with rfl | h
    · cases hliteral
    · exact List.mem_cons_of_mem _ h
  · exact List.mem_cons_of_mem _ h

/-- The converter has no answer for the operators of the template, whatever they are applied to. -/
def Unknown (converter : Converter) (t : Template) : Prop :=
  ∀ operator value raw, Part.conversion operator value raw ∈ t →
    ∀ input, converter.convert operator input = none

theorem render_read_eq (h : Unknown converter (read s)) :
    (read s).render converter store = (readPlain s).renderPlain store := by
  unfold read at h ⊢
  unfold readPlain
  induction s using scan.induct .full with
  | case1 => simp [render, renderPlain]
  | case2 c rest part follows htoken ih =>
    rw [scan_of_token htoken] at h ⊢
    have htail : Unknown converter (scan .full follows) := by
      intro operator value raw hmem
      exact h operator value raw (List.mem_cons_of_mem part hmem)
    rcases Option.or_eq_some_iff.1 htoken with hconversion | ⟨_, href⟩
    · obtain ⟨operator, inner, _, _, _, rfl, hs⟩ := Token.exists_of_conversion? hconversion
      have hnone := h operator _ _ List.mem_cons_self
      have hcut := renderPlain_append store follows (Text.endsClosed_conversionText operator inner)
      rw [hs]
      refine Eq.trans ?_ hcut.symm
      rw [render, List.flatMap_cons, ← render, ih htail, Part.render, hnone]
      rfl
    · obtain ⟨name, _, rfl, _⟩ := Token.exists_of_reference? href
      have hplain : Token.any? .plain (c :: rest) = some (.ref name, follows) := href
      rw [scan_of_token hplain, render, List.flatMap_cons, ← render, ih htail]
      rfl
  | case3 c rest htoken ih =>
    have hplain : Token.any? .plain (c :: rest) = none := (Option.or_eq_none_iff.1 htoken).2
    rw [scan_of_no_token htoken] at h ⊢
    have htail : Unknown converter (scan .full rest) := by
      intro operator value raw hmem
      exact h operator value raw (mem_push hmem rfl)
    rw [scan_of_no_token hplain, render_push, renderPlain_push, ih htail]

end Template

/-- Leaving conversions with unknown operators as they are written, up to the references in them, is
the same as never having looked for conversions. -/
theorem unknown_operators_stay (s : Text) (converter : Converter) (store : Store)
    (h : Template.Unknown converter (Template.read s)) :
    (Template.read s).render converter store = (Template.readPlain s).render converter store := by
  rw [Template.render_of_no_conversions converter store (Template.hasConversions_readPlain s)]
  exact Template.render_read_eq h

/-- A known operator inside the value of an unknown one, and brackets that belong to neither. -/
def nestedLine : Text := "[::foo[[x]::dec->bin[5]]x][x]".toList

theorem nestedLine_stays :
    Template.Unknown Converter.standard (Template.read nestedLine) ∧
      (Template.read nestedLine).render Converter.standard (Store.assign {} ['x'] ['7'])
        = "[::foo[7::dec->bin]x]7".toList := by
  have hread : Template.read nestedLine
      = [.literal ['['],
        .conversion "foo".toList (.literal "[x]::dec->bin[5]".toList)
          "::foo[[x]::dec->bin[5]]".toList,
        .literal "x]".toList, .ref ['x']] := by decide +kernel
  have hunknown : Template.Unknown Converter.standard (Template.read nestedLine) := by
    rw [hread]
    intro operator value raw hmem input
    simp only [List.mem_cons, Part.conversion.injEq, reduceCtorEq, List.not_mem_nil, false_or,
      or_false] at hmem
    rw [hmem.1]
    rfl
  refine ⟨hunknown, ?_⟩
  rw [unknown_operators_stay nestedLine Converter.standard _ hunknown]
  decide +kernel

end LineScript
