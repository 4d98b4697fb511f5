import LineScript.Proofs.WellFormed
import Mathlib.Data.List.Infix

/-!
Structural commands and their spelling. Main statement: a well-formed command is read back from its
spelling, and reading a line gives no other structural commands than well-formed ones.
-/

namespace LineScript

variable {s lead name : Text} {x : Char}

namespace Text

theorem after?_append (lead rest : Text) : after? lead (lead ++ rest) = some rest :=
  after?_eq_some.2 rfl

/-- A text with no blank at either end is as trimmed as it can be. -/
theorem trim_append (hx : lead.head? = some x) (hblank : isBlank x = false) (hne : s ≠ [])
    (hs : trim s = s) : trim (lead ++ s) = lead ++ s := by
  obtain ⟨rest, rfl⟩ := List.head?_eq_some_iff.1 hx
  have hend : trimEnd s = s := by
    have := trimEnd_trim s
    rwa [hs] at this
  rw [trim, List.cons_append, trimStart_cons _ hblank, ← List.cons_append]
  refine List.rdropWhile_eq_self_iff.2 ?_
  intro hall
  rw [List.getLast_append_of_ne_nil hall hne]
  exact List.rdropWhile_eq_self_iff.1 hend hne

theorem trim_space (s : Text) : trim (' ' :: s) = trim s := by
  have hblank : isAllBlank [' '] = true := by decide
  rw [trim, ← List.singleton_append, trimStart_append hblank, ← trim]

end Text

theorem Operand.read_print {o : Operand} (h : o.Sound) : Operand.read o.print = o := by
  unfold Operand.read
  cases o with
  | ref name =>
    have hname : bracketedName? (Operand.print (.ref name)) = some name :=
      bracketedName?_eq_some.2 ⟨by simp [Operand.print], h⟩
    rw [hname]
  | literal text =>
    cases hname : bracketedName? (Operand.print (.literal text)) with
    | none => rfl
    | some name =>
      obtain ⟨htext, hn⟩ := bracketedName?_eq_some.1 hname
      exact (h name hn (by simpa [Operand.print] using htext)).elim

theorem Branch.print_eq (b : Branch) :
    b.print = "::if [".toList ++ (b.left.print ++ b.comparison.spaced ++ b.right.print ++
      "]->[".toList ++ (b.whenTrue ++ [']'] ++
        b.whenFalse.elim [] fun block => " else [".toList ++ block ++ [']'])) := by
  unfold Branch.print
  cases b.whenFalse <;> simp only [List.append_assoc, Option.elim]

namespace Command

namespace Form

variable {c : Command} {target value source : Text}

theorem setting?_append (raw : Text) (h : isName target = true) :
    setting? ("::set [".toList ++ target ++ "] = ".toList ++ raw)
      = some (target, Text.trim raw) := by
  have hbody : Text.after? "::set [".toList ("::set [".toList ++ target ++ "] = ".toList ++ raw)
      = some (target ++ [']'] ++ (' ' :: '=' :: ' ' :: raw)) :=
    Text.after?_eq_some.2 (by simp)
  have hcut : Text.cut? [']'] (target ++ [']'] ++ (' ' :: '=' :: ' ' :: raw))
      = some (target, ' ' :: '=' :: ' ' :: raw) :=
    Text.cut?_singleton _ (not_mem_of_isName h (by decide))
  have hvalue : Text.after? ['='] (Text.trimStart (' ' :: '=' :: ' ' :: raw))
      = some (' ' :: raw) := rfl
  rw [setting?, hbody]
  simp only [Option.bind_eq_bind, Option.bind_some, hcut, hvalue, h, if_true, Text.trim_space]

theorem assign?_print (htarget : isName target = true) (hvalue : IsAssignable value) :
    assign? (print (.assign target value)) = some (.assign target value) := by
  obtain ⟨hne, htrim, hplain⟩ := hvalue
  have hset : setting? (print (.assign target value)) = some (target, value) := by
    have := setting?_append value htarget
    rwa [htrim] at this
  have hname : ¬ (bracketedName? value).isSome := by
    intro hsome
    obtain ⟨name, hname⟩ := Option.isSome_iff_exists.1 hsome
    obtain ⟨hv, hn⟩ := bracketedName?_eq_some.1 hname
    exact hplain name hn (by simpa using hv)
  rw [assign?, hset]
  exact if_neg (not_or.2 ⟨hne, hname⟩)

theorem setting?_copy (htarget : isName target = true) :
    setting? (print (.copy target source)) = some (target, ['['] ++ (source ++ [']'])) := by
  have hprint : print (.copy target source)
      = "::set [".toList ++ target ++ "] = ".toList ++ (['['] ++ (source ++ [']'])) := by
    have hmark : "] = [".toList = "] = ".toList ++ ['['] := rfl
    show "::set [".toList ++ target ++ "] = [".toList ++ source ++ [']'] = _
    rw [hmark]
    simp only [List.append_assoc]
  have htrim : Text.trim (['['] ++ (source ++ [']'])) = ['['] ++ (source ++ [']']) := by
    rw [← List.append_assoc]
    exact Text.trim_append (x := '[') rfl (by decide) (by simp) (by decide)
  rw [hprint, setting?_append _ htarget, htrim]

/-- A copy is no assignment, although both are settings. -/
theorem assign?_copy (htarget : isName target = true) (hsource : isName source = true) :
    assign? (print (.copy target source)) = none := by
  have hname := bracketedName?_eq_some.2 ⟨rfl, hsource⟩
  rw [assign?, setting?_copy htarget]
  exact if_pos (.inr (Option.isSome_iff_exists.2 ⟨source, hname⟩))

theorem copy?_print (htarget : isName target = true) (hsource : isName source = true) :
    copy? (print (.copy target source)) = some (.copy target source) := by
  have hname := bracketedName?_eq_some.2 ⟨rfl, hsource⟩
  rw [copy?, setting?_copy htarget]
  simp only [Option.bind_eq_bind, Option.bind_some, hname]

theorem identify?_print {value : Operand} (hvalue : value.Sound)
    (hblank : Text.isAllBlank value.print = false) :
    identify? (print (.identify value)) = some (.identify value) := by
  have hbetween : Text.between? "::wtf[".toList [']'] (print (.identify value))
      = some value.print :=
    Text.between?_eq_some.2 (List.append_assoc _ _ _)
  rw [identify?, hbetween]
  simp only [Option.bind_eq_bind, Option.bind_some, hblank, Operand.read_print hvalue]
  rfl

theorem alternative?_append (h : isName name = true) :
    alternative? (" else [".toList ++ name ++ [']']) = some (some name) := by
  have htrim : Text.trim (" else [".toList ++ name ++ [']'])
      = "else".toList ++ (' ' :: '[' :: (name ++ [']'])) := by
    have hspace : " else [".toList ++ name ++ [']']
        = ' ' :: ("else [".toList ++ name ++ [']']) := by simp
    rw [hspace, Text.trim_space,
      Text.trim_append (x := 'e') (by rfl) (by decide) (by simp) (by decide)]
    simp
  have hname : bracketedName? (Text.trimStart (' ' :: '[' :: (name ++ [']']))) = some name :=
    bracketedName?_eq_some.2 ⟨rfl, h⟩
  unfold alternative?
  simp only [htrim]
  rw [if_neg (by simp), Text.after?_append, Option.bind_some, hname]
  rfl

theorem alternative?_elim {whenFalse : Option Text}
    (h : ∀ block, whenFalse = some block → isName block = true) :
    alternative? (whenFalse.elim [] fun block => " else [".toList ++ block ++ [']'])
      = some whenFalse := by
  cases whenFalse with
  | none => rfl
  | some block => exact alternative?_append (h block rfl)

/-- The condition of a branch ends where its right side does. -/
theorem cut?_condition {left right : Text} (symbol : Comparison) (follows : Text)
    (hl : ¬ "]->[".toList <:+: left) (hr : ¬ "]->[".toList <:+: right) :
    Text.cut? "]->[".toList (left ++ symbol.spaced ++ right ++ "]->[".toList ++ follows)
      = some (left ++ symbol.spaced ++ right, follows) := by
  apply Text.cut?_append
  intro hin
  have hcondition : "]->[".toList <:+: left ++ symbol.spaced ++ right :=
    Text.infix_of_append "]->".toList (x := '[') (by decide) hin
  rw [List.append_assoc, Comparison.spaced_append] at hcondition
  rcases Text.infix_of_append_cons (by decide) hcondition with hin | hin
  · exact hl hin
  · rcases Text.infix_of_append_cons (by decide) hin with hin | hin
    · revert hin
      cases symbol <;> decide
    · exact hr hin

theorem branch?_print {b : Branch} (h : b.WellFormed)
    (hclear : ∀ symbol : Comparison, ¬ symbol.spaced <:+: b.left.print ++ [' ']) :
    branch? b.print = some (.branch b) := by
  have hcondition (follows : Text) :=
    cut?_condition b.comparison follows h.left.unended h.right.unended
  have hblock (follows : Text) :=
    Text.cut?_singleton follows (not_mem_of_isName h.whenTrue (x := ']') (by decide))
  have hsplit : Comparison.split? (b.left.print ++ b.comparison.spaced ++ b.right.print)
      = some (b.left.print, b.comparison, b.right.print) := by
    have hleft : Text.trim b.left.print ≠ [] := by
      rw [h.left.trimmed]
      exact h.left.nonempty
    have hright : Text.trim b.right.print ≠ [] := by
      rw [h.right.trimmed]
      exact h.right.nonempty
    have := Comparison.split?_append (c := b.comparison) hclear hleft hright
    rwa [h.left.trimmed, h.right.trimmed] at this
  rw [Branch.print_eq, branch?, Text.after?_append]
  simp only [Option.bind_eq_bind, Option.bind_some, hcondition, hblock,
    alternative?_elim h.whenFalse, hsplit, h.whenTrue, if_true, Operand.read_print h.left.sound,
    Operand.read_print h.right.sound]

end Form

variable {c : Command}

/-- A line is read by the first form that takes it. -/
theorem read?_of_form {form : Text → Option Command} (earlier later : List (Text → Option Command))
    (hforms : Form.structural = earlier ++ form :: later)
    (hnone : earlier.all (fun other => (other s).isNone) = true) (h : form s = some c)
    (hcomment : isComment s = false) (htrim : Text.trim s = s) : read? s = some c := by
  have hs : structural? s = some c := by
    refine List.findSome?_eq_some_iff.2 ⟨earlier, form, later, hforms, h, ?_⟩
    intro other hother
    exact Option.isNone_iff_eq_none.1 (List.all_eq_true.1 hnone other hother)
  rw [read?, hcomment, htrim, hs]
  rfl

/-- A spelling begins with a colon and ends in a bracket or in a trimmed text. -/
theorem trim_print (h : c.WellFormed) : Text.trim c.print = c.print := by
  have hclosed (lead : Text) (hlead : lead.head? = some ':') :
      Text.trim (lead ++ [']']) = lead ++ [']'] :=
    Text.trim_append hlead (by decide) (by simp) (by decide)
  cases c with
  | halt | leave => decide
  | label | call | copy | identify => exact hclosed _ rfl
  | assign target value =>
    obtain ⟨_, hne, htrim, _⟩ := h
    exact Text.trim_append (x := ':') rfl (by decide) hne htrim
  | branch b =>
    show Text.trim b.print = b.print
    cases hfalse : b.whenFalse with
    | none =>
      have hprint : b.print = "::if [".toList ++ (b.left.print ++ b.comparison.spaced ++
          b.right.print ++ "]->[".toList ++ b.whenTrue) ++ [']'] := by
        rw [Branch.print_eq, hfalse, Option.elim_none]
        simp only [List.append_assoc, List.append_nil]
      rw [hprint]
      exact hclosed _ rfl
    | some block =>
      have hprint : b.print = "::if [".toList ++ (b.left.print ++ b.comparison.spaced ++
          b.right.print ++ "]->[".toList ++ b.whenTrue ++ [']'] ++ " else [".toList ++ block) ++
          [']'] := by
        rw [Branch.print_eq, hfalse, Option.elim_some]
        simp only [List.append_assoc]
      rw [hprint]
      exact hclosed _ rfl
  | convert | say => exact h.elim

open Form in
theorem read?_print (h : c.WellFormed) (hclear : c.LeftClear [' ']) :
    read? c.print = some c := by
  have htrim := trim_print h
  cases c with
  | halt | leave => decide
  | label block =>
    have hform : label? (print (.label block)) = some (.label block) :=
      Option.map_eq_some_iff.2 ⟨block, bracketed_after?_eq_some.2 ⟨rfl, h⟩, rfl⟩
    exact read?_of_form [halt?] _ rfl rfl hform rfl htrim
  | call block =>
    have hform : call? (print (.call block)) = some (.call block) :=
      Option.map_eq_some_iff.2 ⟨block, bracketed_after?_eq_some.2 ⟨rfl, h⟩, rfl⟩
    exact read?_of_form [halt?, label?, leave?] _ rfl rfl hform rfl htrim
  | assign target value =>
    exact read?_of_form [halt?, label?, leave?, call?] _ rfl rfl (assign?_print h.1 h.2) rfl htrim
  | copy target source =>
    -- The only earlier form that has the same keyword is that of an assignment.
    have hnone : ((assign? (print (.copy target source))).isNone && true) = true := by
      rw [assign?_copy h.1 h.2]
      rfl
    exact read?_of_form [halt?, label?, leave?, call?, assign?] _ rfl hnone
      (copy?_print h.1 h.2) rfl htrim
  | branch b =>
    exact read?_of_form [halt?, label?, leave?, call?, assign?, copy?] _ rfl rfl
      (branch?_print h hclear) rfl htrim
  | identify value =>
    exact read?_of_form [halt?, label?, leave?, call?, assign?, copy?, branch?] _ rfl rfl
      (identify?_print h.1 h.2) rfl htrim
  | convert | say => exact h.elim

end Command

/-- A well-formed command is read back from its spelling, as long as its left side and the space
after it hold no symbol between spaces. Every structural command that is read from a line is well
formed, and no symbol stands between spaces in its left side. -/
theorem spelling_reads_back :
    (∀ c : Command, c.WellFormed → c.LeftClear [' '] → Command.read? c.print = some c) ∧
    ∀ (line : Text) (c : Command), Command.read? line = some c → c.isStructural = true →
      c.WellFormed ∧ c.LeftClear [] := by
  refine ⟨?_, ?_⟩
  · intro c hc hclear
    exact Command.read?_print hc hclear
  · intro line c hread hs
    exact Command.wellFormed_of_read? hread hs

/-- A branch whose sides hold brackets, symbols and the beginning of an arrow. -/
def awkwardBranch : Branch where
  left := .literal "a]=<".toList
  comparison := .atLeast
  right := .literal "b < [c]->".toList
  whenTrue := ['x']
  whenFalse := some ['-']

theorem awkwardBranch_reads_back :
    (Command.branch awkwardBranch).WellFormed ∧
      (Command.branch awkwardBranch).LeftClear [' '] ∧
      Command.read? "::if [a]=< >= b < [c]->]->[x] else [-]".toList
        = some (.branch awkwardBranch) ∧
      Command.read? "  ::wtf[ 7 ]".toList = some (.identify (.literal " 7 ".toList)) ∧
      (Command.identify (.literal " 7 ".toList)).WellFormed := by
  have hliteral {text : Text} (c : Char) (hhead : text.head? = some c) (hc : c ≠ '[') :
      (Operand.literal text).Sound := by
    rintro name _ rfl
    exact hc (Option.some.inj hhead).symm
  have hbranch : (Command.branch awkwardBranch).WellFormed := by
    refine ⟨⟨hliteral 'a' rfl (by decide), by decide, by decide, by decide⟩,
      ⟨hliteral 'b' rfl (by decide), by decide, by decide, by decide⟩, by decide, ?_⟩
    rintro _ ⟨rfl⟩
    decide
  have hclear : (Command.branch awkwardBranch).LeftClear [' '] := by
    intro symbol
    cases symbol <;> decide
  have hwtf : Command.read? "  ::wtf[ 7 ]".toList = some (.identify (.literal " 7 ".toList)) := by
    decide
  have hprint : Command.print (.branch awkwardBranch)
      = "::if [a]=< >= b < [c]->]->[x] else [-]".toList := by decide
  obtain ⟨hreads, hwell⟩ := spelling_reads_back
  have hread := hreads (.branch awkwardBranch) hbranch hclear
  rw [hprint] at hread
  exact ⟨hbranch, hclear, hread, hwtf, (hwell _ _ hwtf rfl).1⟩

end LineScript
