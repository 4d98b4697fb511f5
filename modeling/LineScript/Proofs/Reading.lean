import LineScript.Script
import Mathlib.Data.List.DropRight

/-!
What reading a line can give. Main statement: a value that is assigned is trimmed and neither empty nor
a bracketed name, in whatever way the script was made.
-/

namespace LineScript

theorem not_mem_of_isName {name : Text} {x : Char} (h : isName name = true)
    (hx : isNameChar x = false) : x ∉ name := by
  intro hmem
  have hall : ∀ c ∈ name, isNameChar c = true := by
    simp only [isName, Bool.and_eq_true, List.all_eq_true] at h
    exact h.2
  rw [hall x hmem] at hx
  cases hx

namespace Text

theorem not_isBlank_of_trimStart {s rest : Text} {c : Char} (h : trimStart s = c :: rest) :
    isBlank c = false := by
  have hhead := List.head?_dropWhile_not isBlank s
  rwa [show s.dropWhile isBlank = c :: rest from h] at hhead

theorem trimStart_cons {c : Char} (rest : Text) (h : isBlank c = false) :
    trimStart (c :: rest) = c :: rest := by
  simp [trimStart, h]

/-- Trimming at the end does not bring a blank to the front. -/
theorem trimStart_trim (s : Text) : trimStart (trim s) = trim s := by
  cases ht : trim s with
  | nil => rfl
  | cons c rest =>
    obtain ⟨tail, htail⟩ : trim s <+: trimStart s := List.rdropWhile_prefix isBlank (trimStart s)
    rw [ht] at htail
    exact trimStart_cons rest (not_isBlank_of_trimStart htail.symm)

theorem trimEnd_trim (s : Text) : trimEnd (trim s) = trim s :=
  List.rdropWhile_idempotent isBlank (trimStart s)

theorem trim_trim (s : Text) : trim (trim s) = trim s := by
  rw [trim, trimStart_trim, trimEnd_trim]

theorem trim_of_no_blank {s : Text} (h : ∀ c ∈ s, isBlank c = false) : trim s = s := by
  have hstart : trimStart s = s := by
    cases s with
    | nil => rfl
    | cons c rest => exact trimStart_cons rest (h c List.mem_cons_self)
  rw [trim, hstart]
  refine List.rdropWhile_eq_self_iff.2 ?_
  intro hne
  rw [h _ (List.getLast_mem hne)]
  exact Bool.false_ne_true

variable {s before after : Text}

theorem trimStart_append (h : isAllBlank before = true) : trimStart (before ++ s) = trimStart s :=
  List.dropWhile_append_of_pos (List.all_eq_true.1 h)

theorem trimEnd_append (h : isAllBlank after = true) : trimEnd (s ++ after) = trimEnd s := by
  rw [trimEnd, trimEnd, List.reverse_append, List.dropWhile_append_of_pos]
  intro c hc
  exact List.all_eq_true.1 h c (List.mem_reverse.1 hc)

theorem trim_append_blank (h : isAllBlank after = true) : trim (s ++ after) = trim s := by
  rw [trim, trim, trimStart, List.dropWhile_append]
  split
  · rename_i hempty
    have hs : trimStart s = [] := List.isEmpty_iff.1 hempty
    rw [hs, List.dropWhile_eq_nil_iff.2 (List.all_eq_true.1 h)]
  · exact trimEnd_append h

theorem trim_between_blank (hbefore : isAllBlank before = true) (hafter : isAllBlank after = true) :
    trim (before ++ s ++ after) = trim s := by
  rw [trim_append_blank hafter, trim, trimStart_append hbefore, ← trim]

end Text

namespace Command

variable {s target value : Text}

/-- A value that an assignment can have: trimmed, and neither empty nor a bracketed name. -/
def IsAssignable (value : Text) : Prop :=
  value ≠ [] ∧ Text.trim value = value ∧
    ∀ name, isName name = true → value ≠ ['['] ++ name ++ [']']

namespace Form

theorem trim_of_setting? (h : setting? s = some (target, value)) : Text.trim value = value := by
  obtain ⟨body, _, h⟩ := Option.bind_eq_some_iff.1 h
  obtain ⟨⟨name, rest⟩, _, h⟩ := Option.bind_eq_some_iff.1 h
  obtain ⟨raw, _, h⟩ := Option.bind_eq_some_iff.1 h
  split at h
  · cases h
    exact Text.trim_trim raw
  · cases h

theorem isAssignable_of_assign? (h : assign? s = some (.assign target value)) :
    IsAssignable value := by
  obtain ⟨⟨name, text⟩, hs, h⟩ := Option.bind_eq_some_iff.1 h
  dsimp only at h
  split at h
  · cases h
  · rename_i hneither
    cases h
    obtain ⟨hempty, hname⟩ := not_or.1 hneither
    refine ⟨hempty, trim_of_setting? hs, ?_⟩
    intro name hn hvalue
    rw [bracketedName?_eq_some.2 ⟨by simpa using hvalue, hn⟩] at hname
    exact hname rfl

/-- No other form than its own gives an assignment. -/
theorem assign?_of_mem {form : Text → Option Command} (hf : form ∈ structural)
    (h : form s = some (.assign target value)) : assign? s = some (.assign target value) := by
  simp only [structural, List.mem_cons, List.not_mem_nil, or_false] at hf
  rcases hf with rfl | rfl | rfl | rfl | rfl | rfl | rfl | rfl
  · unfold halt? at h
    split at h <;> cases h
  · obtain ⟨block, _, hb⟩ := Option.map_eq_some_iff.1 h
    cases hb
  · unfold leave? at h
    split at h <;> cases h
  · obtain ⟨block, _, hb⟩ := Option.map_eq_some_iff.1 h
    cases hb
  · exact h
  · obtain ⟨⟨name, text⟩, _, h⟩ := Option.bind_eq_some_iff.1 h
    obtain ⟨source, _, h⟩ := Option.bind_eq_some_iff.1 h
    cases h
  · obtain ⟨body, _, h⟩ := Option.bind_eq_some_iff.1 h
    obtain ⟨⟨condition, rest⟩, _, h⟩ := Option.bind_eq_some_iff.1 h
    obtain ⟨⟨whenTrue, rest'⟩, _, h⟩ := Option.bind_eq_some_iff.1 h
    obtain ⟨whenFalse, _, h⟩ := Option.bind_eq_some_iff.1 h
    obtain ⟨⟨left, comparison, right⟩, _, h⟩ := Option.bind_eq_some_iff.1 h
    dsimp only at h
    split at h <;> cases h
  · obtain ⟨text, _, h⟩ := Option.bind_eq_some_iff.1 h
    split at h <;> cases h

end Form

variable {line : Text} {c : Command}

/-- A line that is no comment and in no structural form is printed. -/
theorem read?_of_no_form (hcomment : isComment line = false)
    (hforms : ∀ form ∈ Form.structural, form (Text.trim line) = none) :
    read? line = some (ofTemplate (Template.read line)) := by
  have hstructural : structural? (Text.trim line) = none := List.findSome?_eq_none_iff.2 hforms
  rw [read?, hcomment, hstructural]
  rfl

/-- A structural command can only come from one of the forms, and not from a comment. -/
theorem structural?_of_read? (h : read? line = some c) (hs : c.isStructural = true) :
    isComment line = false ∧ structural? (Text.trim line) = some c := by
  unfold read? at h
  split at h
  · cases h
  · rename_i hcomment
    refine ⟨eq_false_of_ne_true hcomment, ?_⟩
    cases hform : structural? (Text.trim line) with
    | none =>
      rw [hform, Option.getD_none, ofTemplate] at h
      split at h <;> cases h <;> cases hs
    | some command =>
      rw [hform, Option.getD_some] at h
      exact h

theorem isAssignable_of_read? (h : read? line = some (.assign target value)) :
    IsAssignable value := by
  obtain ⟨_, hs⟩ := structural?_of_read? h rfl
  obtain ⟨form, hf, hform⟩ := List.exists_of_findSome?_eq_some hs
  exact Form.isAssignable_of_assign? (Form.assign?_of_mem hf hform)

end Command

namespace Script

/-- Made of a source text or of separate lines. -/
def WasRead (script : Script) : Prop :=
  (∃ source sourceId, script = ofSource source sourceId) ∨ ∃ texts, script = ofLines texts

theorem command_of_mem_linesOfPieces {offset : Nat} {pieces : List Text} {line : Line}
    (h : line ∈ linesOfPieces offset pieces) : line.command = Command.read? line.text := by
  induction pieces generalizing offset with
  | nil => cases h
  | cons piece rest ih =>
    rcases List.mem_cons.1 h with rfl | h
    · rfl
    · exact ih h

theorem command_of_mem_linesOfTexts {offset : Nat} {texts : List Text} {line : Line}
    (h : line ∈ linesOfTexts offset texts) : line.command = Command.read? line.text := by
  induction texts generalizing offset with
  | nil => cases h
  | cons text rest ih =>
    rcases List.mem_cons.1 h with rfl | h
    · rfl
    · exact ih h

theorem WasRead.command_eq {script : Script} {line : Line} (h : script.WasRead)
    (hl : line ∈ script.lines) : line.command = Command.read? line.text := by
  rcases h with ⟨source, sourceId, rfl⟩ | ⟨texts, rfl⟩
  · exact command_of_mem_linesOfPieces hl
  · exact command_of_mem_linesOfTexts hl

end Script

end LineScript
