import LineScript.Proofs.Effect

/-!
Where the blocks of a script are. A block is found at the first line that bears its label, so that a
call of it runs the lines after that one.
-/

namespace LineScript

/-- The block whose label the line bears. -/
def Line.label? (line : Line) : Option Text :=
  match line.command with
  | some (.label name) => some name
  | _ => none

theorem Line.label?_eq_some {line : Line} {name : Text} :
    line.label? = some name ↔ line.command = some (.label name) := by
  unfold Line.label?
  split
  · rename_i hc
    simp [hc]
  · rename_i hc
    simp only [reduceCtorEq, false_iff]
    exact hc name

namespace Blocks

variable {b : Blocks} {name : Text}

/-- The index tells the place of every entry, and of nothing else. -/
def Consistent (b : Blocks) : Prop :=
  ∀ name i, b.index.get? name = some i ↔ ∃ line, b.entries[i]? = some ⟨name, line⟩

theorem consistent_empty : Consistent {} := by
  intro name i
  simp [Table.get?]

theorem register_known (n : Nat) (h : b.isKnown name = true) : b.register name n = b := by
  simp [register, add?, h]

theorem register_unknown (n : Nat) (h : b.isKnown name = false) :
    b.register name n
      = ⟨b.entries ++ [⟨name, n⟩], b.index.put name b.entries.length⟩ := by
  simp [register, add?, h]

theorem get?_of_unknown (h : b.isKnown name = false) : b.index.get? name = none := by
  simpa [isKnown] using h

theorem getElem?_concat_eq_some {entries : List Block} {e e' : Block} {i : Nat} :
    (entries ++ [e])[i]? = some e' ↔ entries[i]? = some e' ∨ i = entries.length ∧ e = e' := by
  grind

theorem consistent_register (n : Nat) (hb : b.Consistent) : (b.register name n).Consistent := by
  cases hk : b.isKnown name with
  | true => rwa [register_known n hk]
  | false =>
    rw [register_unknown n hk]
    intro key i
    simp only [Table.get?_put, getElem?_concat_eq_some]
    by_cases hkey : key = name
    · subst hkey
      rw [if_pos rfl]
      constructor
      · rintro ⟨rfl⟩
        exact ⟨n, .inr ⟨rfl, rfl⟩⟩
      · rintro ⟨line, he | ⟨hi, _⟩⟩
        · -- The old entries do not have the new name, since the old index does not know it.
          have hget := (hb key i).2 ⟨line, he⟩
          rw [get?_of_unknown hk] at hget
          cases hget
        · rw [hi]
    · rw [if_neg hkey, hb key i]
      constructor
      · rintro ⟨line, he⟩
        exact ⟨line, .inl he⟩
      · rintro ⟨line, he | ⟨_, he⟩⟩
        · exact ⟨line, he⟩
        · cases he
          exact (hkey rfl).elim

theorem line?_of_get? {i line : Nat} (hi : b.index.get? name = some i)
    (he : b.entries[i]? = some ⟨name, line⟩) : b.line? name = some line := by
  simp [line?, hi, he]

theorem line?_of_unknown (h : b.isKnown name = false) : b.line? name = none := by
  simp [line?, get?_of_unknown h]

theorem line?_isSome_of_known (hb : b.Consistent) (h : b.isKnown name = true) :
    (b.line? name).isSome := by
  obtain ⟨i, hi⟩ := Option.isSome_iff_exists.1 h
  obtain ⟨line, he⟩ := (hb name i).1 hi
  rw [line?_of_get? hi he]
  rfl

/-- A block that is there already stays where it is. -/
theorem line?_register (key : Text) (n : Nat) (hb : b.Consistent) :
    (b.register name n).line? key = (b.line? key).or (if key = name then some n else none) := by
  cases hk : b.isKnown name with
  | true =>
    rw [register_known n hk]
    by_cases hkey : key = name
    · subst hkey
      obtain ⟨line, hl⟩ := Option.isSome_iff_exists.1 (line?_isSome_of_known hb hk)
      simp [hl]
    · simp [hkey]
  | false =>
    rw [register_unknown n hk]
    by_cases hkey : key = name
    · subst hkey
      rw [line?_of_unknown hk]
      simp [line?, Table.get?_put]
    · simp only [line?, Table.get?_put, if_neg hkey, Option.or_none]
      cases hi : b.index.get? key with
      | none => rfl
      | some i =>
        obtain ⟨line, he⟩ := (hb key i).1 hi
        obtain ⟨hlt, _⟩ := List.getElem?_eq_some_iff.1 he
        simp only [Option.bind_some, List.getElem?_append_left hlt]

theorem registerLines_cons (number : Nat) (line : Line) (rest : List Line) :
    b.registerLines number (line :: rest)
      = (line.label?.elim b (b.register · number)).registerLines (number + 1) rest := by
  cases hl : line.label? with
  | none =>
    simp only [registerLines]
    split
    · rename_i hc
      rw [Line.label?_eq_some.2 hc] at hl
      cases hl
    · rfl
  | some name => simp only [registerLines, Line.label?_eq_some.1 hl, Option.elim_some]

theorem line?_registerLines (number : Nat) (lines : List Line) (key : Text)
    (hb : b.Consistent) :
    (b.registerLines number lines).line? key
      = (b.line? key).or ((lines.findIdx? fun line => line.label? = some key).map
          (number + ·)) := by
  induction lines generalizing b number with
  | nil => simp [registerLines]
  | cons line rest ih =>
    rw [registerLines_cons, List.findIdx?_cons]
    have hshift : (number + ·) ∘ (· + 1) = (number + 1 + ·) := by
      funext i
      simp only [Function.comp_apply]
      omega
    cases hl : line.label? with
    | none =>
      rw [Option.elim_none, ih (number + 1) hb]
      simp [hshift]
    | some name =>
      rw [Option.elim_some, ih (number + 1) (consistent_register number hb),
        line?_register key number hb]
      by_cases hkey : key = name
      · subst hkey
        cases b.line? key <;> simp
      · have hne : ¬ name = key := fun h => hkey h.symm
        simp [hkey, hne, hshift]

/-- A block begins at the first of its labels. -/
theorem line?_ofScript (script : Script) (name : Text) :
    (ofScript script).line? name
      = script.lines.findIdx? fun line => line.label? = some name := by
  rw [ofScript, line?_registerLines 0 script.lines name consistent_empty]
  simp [line?, Table.get?]

/-- Only the labels matter to where the blocks are. -/
theorem registerLines_congr {lines lines' : List Line} (number : Nat)
    (h : lines'.map Line.label? = lines.map Line.label?) :
    b.registerLines number lines' = b.registerLines number lines := by
  induction lines generalizing b number lines' with
  | nil =>
    rw [List.map_nil, List.map_eq_nil_iff] at h
    rw [h]
  | cons line rest ih =>
    obtain ⟨line', rest', rfl, hline, hrest⟩ := List.map_eq_cons_iff.1 h
    rw [registerLines_cons, registerLines_cons, hline]
    exact ih (number + 1) hrest

end Blocks

/-- The lines after the first one that bears the label of a block. -/
def blockLines? (name : Text) : List Line → Option (List Line)
  | [] => none
  | line :: rest => if line.label? = some name then some rest else blockLines? name rest

theorem map_drop_findIdx? (name : Text) (lines : List Line) :
    (lines.findIdx? fun line => line.label? = some name).map (fun i => lines.drop (i + 1))
      = blockLines? name lines := by
  induction lines with
  | nil => rfl
  | cons line rest ih =>
    rw [List.findIdx?_cons, blockLines?]
    by_cases hl : line.label? = some name
    · simp [hl]
    · simp only [hl, decide_false, Bool.false_eq_true, if_false, Option.map_map, ← ih]
      rfl

namespace Engine

variable {σ : Type}

/-- The lines that a call of a block runs, if there is such a block. -/
def Setting.frame? (setting : Setting σ) (block : Text) : Option (List Line) :=
  (setting.blocks.line? block).map fun position => setting.script.lines.drop (position + 1)

theorem frame?_eq_none {setting : Setting σ} {block : Text} :
    setting.frame? block = none ↔ setting.blocks.line? block = none :=
  Option.map_eq_none_iff

theorem frame?_eq_some {setting : Setting σ} {block : Text} {lines : List Line} :
    setting.frame? block = some lines ↔
      ∃ position, setting.blocks.line? block = some position ∧
        setting.script.lines.drop (position + 1) = lines :=
  Option.map_eq_some_iff

theorem frame?_setting (session : Session) (sink : Sink σ) (block : Text) :
    (session.setting sink).frame? block = blockLines? block session.script.lines := by
  rw [← map_drop_findIdx?, ← Blocks.line?_ofScript]
  rfl

end Engine

end LineScript
