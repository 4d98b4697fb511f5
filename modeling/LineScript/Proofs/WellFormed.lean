import LineScript.Command.Printer
import LineScript.Proofs.Occurrence

/-!
What a structural command is like that was read from a line. Main statement: its names are names,
and its texts are such as a line can hold in their places.
-/

namespace LineScript

variable {s name : Text}

namespace Operand

/-- A literal is not a bracketed name, which would be read as a reference. -/
def Sound : Operand → Prop
  | literal text => ∀ name, isName name = true → text ≠ ['['] ++ name ++ [']']
  | ref name => isName name = true

theorem print_read (s : Text) : (read s).print = s := by
  unfold read
  split
  · rename_i name hname
    simpa [print] using (bracketedName?_eq_some.1 hname).1.symm
  · rfl

theorem sound_read (s : Text) : (read s).Sound := by
  unfold read
  split
  · rename_i name hname
    exact (bracketedName?_eq_some.1 hname).2
  · rename_i hnone
    intro name hn hs
    rw [bracketedName?_eq_some.2 ⟨by simpa using hs, hn⟩] at hnone
    cases hnone

/-- A side of a comparison: it has some text, no blank around it, and nothing in it that would end
the condition. -/
structure IsSide (o : Operand) : Prop where
  sound : o.Sound
  nonempty : o.print ≠ []
  trimmed : Text.trim o.print = o.print
  unended : ¬ "]->[".toList <:+: o.print

end Operand

structure Branch.WellFormed (b : Branch) : Prop where
  left : b.left.IsSide
  right : b.right.IsSide
  whenTrue : isName b.whenTrue = true
  whenFalse : ∀ block, b.whenFalse = some block → isName block = true

namespace Command

/-- A structural command that a line can hold: names are names, and texts keep to their places. -/
def WellFormed : Command → Prop
  | halt | leave => True
  | label block | call block => isName block = true
  | assign target value => isName target = true ∧ IsAssignable value
  | copy target source => isName target = true ∧ isName source = true
  | branch b => b.WellFormed
  | identify value => value.Sound ∧ Text.isAllBlank value.print = false
  | convert _ | say _ => False

/-- No symbol stands between spaces in the left side of a branch with the given text after it. -/
def LeftClear (follows : Text) : Command → Prop
  | branch b => ∀ symbol : Comparison, ¬ symbol.spaced <:+: b.left.print ++ follows
  | _ => True

namespace Form

variable {c : Command} {word target value : Text}

theorem bracketed_after?_eq_some :
    (Text.after? word s).bind bracketedName? = some name ↔
      s = word ++ ['['] ++ name ++ [']'] ∧ isName name = true := by
  rw [Option.bind_eq_some_iff]
  constructor
  · rintro ⟨rest, hrest, hname⟩
    obtain ⟨rfl, hn⟩ := bracketedName?_eq_some.1 hname
    exact ⟨by simpa using Text.after?_eq_some.1 hrest, hn⟩
  · rintro ⟨rfl, hn⟩
    refine ⟨['['] ++ (name ++ [']']), ?_, bracketedName?_eq_some.2 ⟨rfl, hn⟩⟩
    exact Text.after?_eq_some.2 (by simp)

theorem isName_of_setting? (h : setting? s = some (target, value)) : isName target = true := by
  obtain ⟨body, _, h⟩ := Option.bind_eq_some_iff.1 h
  obtain ⟨⟨name, rest⟩, _, h⟩ := Option.bind_eq_some_iff.1 h
  obtain ⟨raw, _, h⟩ := Option.bind_eq_some_iff.1 h
  split at h
  · rename_i hname
    cases h
    exact hname
  · cases h

theorem isName_of_alternative? (h : alternative? s = some (some name)) : isName name = true := by
  unfold alternative? at h
  dsimp only at h
  split at h
  · cases h
  · obtain ⟨block, hblock, he⟩ := Option.map_eq_some_iff.1 h
    cases he
    obtain ⟨rest, _, hname⟩ := Option.bind_eq_some_iff.1 hblock
    exact (bracketedName?_eq_some.1 hname).2

theorem isSide_of_infix {side : Text} (hne : Text.trim side ≠ []) (hin : side <:+: s)
    (hs : ¬ "]->[".toList <:+: s) : (Operand.read (Text.trim side)).IsSide := by
  refine ⟨Operand.sound_read _, ?_, ?_, ?_⟩ <;> rw [Operand.print_read]
  · exact hne
  · exact Text.trim_trim side
  · intro hmark
    exact hs ((hmark.trans (Text.trim_infix side)).trans hin)

theorem wellFormed_of_branch? (h : branch? s = some c) : c.WellFormed ∧ c.LeftClear [] := by
  obtain ⟨body, _, h⟩ := Option.bind_eq_some_iff.1 h
  obtain ⟨⟨condition, rest⟩, hcondition, h⟩ := Option.bind_eq_some_iff.1 h
  obtain ⟨⟨whenTrue, tail⟩, _, h⟩ := Option.bind_eq_some_iff.1 h
  obtain ⟨whenFalse, hfalse, h⟩ := Option.bind_eq_some_iff.1 h
  obtain ⟨⟨left, comparison, right⟩, hsplit, h⟩ := Option.bind_eq_some_iff.1 h
  dsimp only at h
  split at h
  · rename_i htrue
    cases h
    obtain ⟨l, r, hs, rfl, rfl, hl, hr, hfree⟩ := Comparison.exists_of_split? hsplit
    -- The condition ends at the first arrow, and so neither side has one.
    have hunended : ¬ "]->[".toList <:+: condition :=
      Text.not_infix_of_cut?_eq_some (by simp) hcondition
    refine ⟨⟨?_, ?_, htrue, ?_⟩, ?_⟩
    · exact isSide_of_infix hl ⟨[], comparison.spaced ++ r, by rw [hs]; simp⟩ hunended
    · exact isSide_of_infix hr ⟨l ++ comparison.spaced, [], by rw [hs]; simp⟩ hunended
    · rintro block rfl
      exact isName_of_alternative? hfalse
    · intro symbol hin
      rw [Operand.print_read, List.append_nil] at hin
      exact hfree symbol (hin.trans (Text.trim_infix l))
  · cases h

/-- Whatever form gives a command, the command is well formed. -/
theorem wellFormed_of_mem {form : Text → Option Command} (hf : form ∈ structural)
    (h : form s = some c) : c.WellFormed ∧ c.LeftClear [] := by
  simp only [structural, List.mem_cons, List.not_mem_nil, or_false] at hf
  rcases hf with rfl | rfl | rfl | rfl | rfl | rfl | rfl | rfl
  · unfold halt? at h
    split at h <;> cases h
    exact ⟨trivial, trivial⟩
  · obtain ⟨block, hblock, rfl⟩ := Option.map_eq_some_iff.1 h
    exact ⟨(bracketed_after?_eq_some.1 hblock).2, trivial⟩
  · unfold leave? at h
    split at h <;> cases h
    exact ⟨trivial, trivial⟩
  · obtain ⟨block, hblock, rfl⟩ := Option.map_eq_some_iff.1 h
    exact ⟨(bracketed_after?_eq_some.1 hblock).2, trivial⟩
  · obtain ⟨⟨target, value⟩, hset, hrest⟩ := Option.bind_eq_some_iff.1 h
    dsimp only at hrest
    split at hrest <;> cases hrest
    exact ⟨⟨isName_of_setting? hset, isAssignable_of_assign? h⟩, trivial⟩
  · obtain ⟨⟨target, value⟩, hset, hrest⟩ := Option.bind_eq_some_iff.1 h
    obtain ⟨source, hsource, hrest⟩ := Option.bind_eq_some_iff.1 hrest
    cases hrest
    exact ⟨⟨isName_of_setting? hset, (bracketedName?_eq_some.1 hsource).2⟩, trivial⟩
  · exact wellFormed_of_branch? h
  · obtain ⟨value, _, hrest⟩ := Option.bind_eq_some_iff.1 h
    split at hrest
    · cases hrest
    · rename_i hblank
      cases hrest
      refine ⟨⟨Operand.sound_read value, ?_⟩, trivial⟩
      rw [Operand.print_read]
      simpa using hblank

end Form

theorem wellFormed_of_read? {line : Text} {c : Command} (h : read? line = some c)
    (hs : c.isStructural = true) : c.WellFormed ∧ c.LeftClear [] := by
  obtain ⟨_, hform⟩ := structural?_of_read? h hs
  obtain ⟨form, hf, hread⟩ := List.exists_of_findSome?_eq_some hform
  exact Form.wellFormed_of_mem hf hread

end Command

end LineScript
