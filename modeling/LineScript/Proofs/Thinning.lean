import LineScript.Proofs.Lockstep

/-!
Scripts with lines taken out. Main statement: a run does not show whether comments, and labels that an
earlier line bears already, are there.
-/

namespace LineScript

namespace Script

/-- The script without the lines of some numbers; the other lines stay as they are. -/
def without (script : Script) (removed : Nat → Bool) : Script :=
  { script with lines := (script.lines.zipIdx.filter fun line => !removed line.2).map Prod.fst }

/-- The line of that number is a comment, or a label that an earlier line bears already. -/
def Redundant (script : Script) (i : Nat) : Prop :=
  ∀ line, script.lines[i]? = some line →
    line.command = none ∨
      ∃ name, line.command = some (.label name) ∧
        ∃ j < i, ∃ earlier, script.lines[j]? = some earlier ∧
          earlier.command = some (.label name)

end Script

/-- The lines that are kept of those after `earlier`; what is left out is a comment or has its label
on an earlier line. -/
inductive Thins : List Line → List Line → List Line → Prop
  | nil (earlier : List Line) : Thins earlier [] []
  | keep {earlier lines kept : List Line} (line : Line) :
      Thins (earlier ++ [line]) lines kept → Thins earlier (line :: lines) (line :: kept)
  | remove {earlier lines kept : List Line} {line : Line} :
      (line.command = none ∨ ∃ name, line.command = some (.label name) ∧
        ∃ l ∈ earlier, l.command = some (.label name)) →
      Thins (earlier ++ [line]) lines kept → Thins earlier (line :: lines) kept

theorem thins_without {script : Script} {removed : Nat → Bool}
    (h : ∀ i, removed i = true → script.Redundant i) (earlier lines : List Line)
    (hs : script.lines = earlier ++ lines) :
    Thins earlier lines
      (((lines.zipIdx earlier.length).filter fun line => !removed line.2).map Prod.fst) := by
  induction lines generalizing earlier with
  | nil => exact .nil earlier
  | cons line lines ih =>
    have hrest := ih (earlier ++ [line]) (by simp [hs])
    rw [List.length_append, List.length_singleton] at hrest
    rw [List.zipIdx_cons]
    cases hr : removed earlier.length with
    | false =>
      simp only [List.filter_cons, hr, Bool.not_false, if_true, List.map_cons]
      exact .keep line hrest
    | true =>
      simp only [List.filter_cons, hr, Bool.not_true, Bool.false_eq_true, if_false]
      refine .remove ?_ hrest
      rcases h earlier.length hr line (by simp [hs]) with hc | ⟨name, hc, j, hj, l, hl, hlabel⟩
      · exact .inl hc
      · rw [hs, List.getElem?_append_left hj] at hl
        exact .inr ⟨name, hc, l, List.mem_of_getElem? hl, hlabel⟩

namespace Engine

variable {σ : Type} {left right : Setting σ} {alike : State σ → State σ → Prop}
  {calls : Text → Text → Prop} {earlier lines kept : List Line}

theorem framesAlike_of_thins (hline : ∀ line, LinesAlike left right alike calls line line)
    (h : Thins earlier lines kept) : FramesAlike left right alike calls lines kept := by
  induction h with
  | nil => exact .nil
  | keep line _ ih => exact .cons (hline line) fun _ => ih
  | remove hr _ ih =>
    refine .skip ?_ ih
    rcases hr with hc | ⟨name, hc, _⟩
    · exact .inl hc
    · exact .inr ⟨name, hc⟩

/-- The first label of a block is kept, and so the block begins at the same line as before. -/
theorem blocksAlike_of_thins (hline : ∀ line, LinesAlike left right alike calls line line)
    (name : Text) (h : Thins earlier lines kept)
    (hfirst : ∀ line ∈ earlier, line.label? ≠ some name) :
    Option.Rel (FramesAlike left right alike calls) (blockLines? name lines)
      (blockLines? name kept) := by
  induction h with
  | nil => exact .none
  | keep line hrest ih =>
    by_cases hl : line.label? = some name
    · simp only [blockLines?, hl, if_true]
      exact .some (framesAlike_of_thins hline hrest)
    · simp only [blockLines?, hl, if_false]
      exact ih (List.forall_mem_append.2 ⟨hfirst, List.forall_mem_singleton.2 hl⟩)
  | @remove earlier lines kept line hr _ ih =>
    have hl : line.label? ≠ some name := by
      intro hl
      have hc := Line.label?_eq_some.1 hl
      rcases hr with hnone | ⟨name', hc', l, hmem, hlabel⟩
      · rw [hnone] at hc
        cases hc
      · rw [hc'] at hc
        cases hc
        exact hfirst l hmem (Line.label?_eq_some.2 hlabel)
    simp only [blockLines?, hl, if_false]
    exact ih (List.forall_mem_append.2 ⟨hfirst, List.forall_mem_singleton.2 hl⟩)

/-- A script and what is left of it run in step, on equal states. -/
def thinningCoupling (session : Session) (sink : Sink σ) {removed : Nat → Bool}
    (h : ∀ i, removed i = true → session.script.Redundant i) :
    Coupling (session.setting sink)
      (({ session with script := session.script.without removed } : Session).setting sink) where
  alike s s' := s' = s
  calls block block' := block' = block
  limit := rfl
  sourceId := rfl
  entry := rfl
  frames := by
    rintro _ block rfl
    rw [frame?_setting, frame?_setting]
    refine blocksAlike_of_thins ?_ block (thins_without h [] _ rfl) (by simp)
    intro line
    refine linesAlike_self (by rfl) (by rfl) line ?_
    intro _ _
    rfl

end Engine

/-- Comments and repeated labels can be taken out of a script: the outcome, the output and the
variables stay the same, for every limit, converter and sink. -/
theorem run_without_redundant {σ : Type} (session : Session) (sink : Sink σ) (out : σ)
    (removed : Nat → Bool) (h : ∀ i, removed i = true → session.script.Redundant i) :
    let thinned : Session := { session with script := session.script.without removed }
    (thinned.run sink out).1 = (session.run sink out).1 ∧
      (thinned.run sink out).2.1 = (session.run sink out).2.1 ∧
      (thinned.run sink out).2.2.store = (session.run sink out).2.2.store := by
  intro thinned
  exact (Engine.thinningCoupling session sink h).session_run_eq (fun _ _ => Iff.rfl) out

/-- The chant with a comment before it and its label once more after it. -/
def annotatedChant : Script :=
  { chant with
    lines := ⟨"# a chant".toList, ⟨0, 0⟩, none⟩ :: chant.lines ++
      [⟨"::start[main]".toList, ⟨30, 43⟩, some (.label entryBlock)⟩] }

theorem annotatedChant_runs_as_chant :
    annotatedChant.without [0, 4].contains = chant ∧
      (∀ i, [0, 4].contains i = true → annotatedChant.Redundant i) ∧
      (({ script := chant, limit := 1 } : Session).run Sink.gather []).1
        = (({ script := annotatedChant, limit := 1 } : Session).run Sink.gather []).1 ∧
      (({ script := chant, limit := 1 } : Session).run Sink.gather []).2.1
        = (({ script := annotatedChant, limit := 1 } : Session).run Sink.gather []).2.1 := by
  have hchant : annotatedChant.without [0, 4].contains = chant := by decide
  have hredundant : ∀ i, [0, 4].contains i = true → annotatedChant.Redundant i := by
    intro i hi line hline
    have hi : i = 0 ∨ i = 4 := by simpa using hi
    rcases hi with rfl | rfl
    · cases hline
      exact .inl rfl
    · cases hline
      exact .inr ⟨entryBlock, rfl, 1, by decide, _, rfl, rfl⟩
  refine ⟨hchant, hredundant, ?_⟩
  have h := run_without_redundant { script := annotatedChant, limit := 1 } Sink.gather []
    [0, 4].contains hredundant
  rw [hchant] at h
  exact ⟨h.1, h.2.1⟩

end LineScript
