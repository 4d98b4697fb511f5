import LineScript.Proofs.Discovery

/-!
Scripts whose lines lie elsewhere in their source. Main statement: a run shows where the lines lie
by nothing but the place that an overflow names.
-/

namespace LineScript

/-- The failure of the line in its new place; a failure without a place stays as it is. -/
def Failure.moved (place : Span → Span) (sourceId : Nat) (failure : Failure) : Failure :=
  match failure.span with
  | none => failure
  | some span => { failure with span := some (place span), sourceId }

theorem Failure.cause_moved (place : Span → Span) (sourceId : Nat) (failure : Failure) :
    (failure.moved place sourceId).cause = failure.cause := by
  unfold Failure.moved
  split <;> rfl

def Line.moved (place : Span → Span) (line : Line) : Line := { line with span := place line.span }

/-- The script with every line in a new place, of another source. -/
def Script.moved (place : Span → Span) (sourceId : Nat) (script : Script) : Script :=
  ⟨script.lines.map (Line.moved place), sourceId⟩

/-- The end of a run, or why it failed, apart from the place to blame. -/
def Outcome.kind (outcome : Outcome) : Except Cause Completion := outcome.mapError Failure.cause

theorem Outcome.kind_moved (place : Span → Span) (sourceId : Nat) (outcome : Outcome) :
    Outcome.kind (outcome.mapError (Failure.moved place sourceId)) = outcome.kind := by
  cases outcome with
  | ok completion => rfl
  | error failure => exact congrArg Except.error (failure.cause_moved place sourceId)

theorem Blocks.ofScript_moved (place : Span → Span) (sourceId : Nat) (script : Script) :
    ofScript (script.moved place sourceId) = ofScript script := by
  refine registerLines_congr 0 ?_
  rw [Script.moved, List.map_map]
  rfl

namespace Engine

variable {σ : Type}

def Exit.moved (place : Span → Span) (sourceId : Nat) : Exit → Exit
  | .failed failure => .failed (failure.moved place sourceId)
  | exit => exit

theorem outcomeOf_moved (place : Span → Span) (sourceId : Nat) (exit : Exit) :
    outcomeOf (exit.moved place sourceId)
      = (outcomeOf exit).mapError (Failure.moved place sourceId) := by
  cases exit <;> rfl

def Setting.moved (place : Span → Span) (sourceId : Nat) (setting : Setting σ) : Setting σ :=
  { setting with script := setting.script.moved place sourceId }

variable (place : Span → Span) (sourceId : Nat) (setting : Setting σ)

/-- If calls differ only in the place that they blame, then so do frames. -/
theorem body_moved {run run' : Text → Span → State σ → Exit × State σ}
    (hrun : ∀ block span s,
      run' block (place span) s = (run block span s).map (Exit.moved place sourceId) id)
    (lines : List Line) (s : State σ) :
    body (setting.moved place sourceId) run' (lines.map (Line.moved place)) s
      = (body setting run lines s).map (Exit.moved place sourceId) id := by
  induction lines generalizing s with
  | nil => rfl
  | cons line rest ih =>
    have hsame : effect (setting.moved place sourceId).converter s.store (line.moved place).command
        = effect setting.converter s.store line.command := rfl
    rw [List.map_cons]
    cases he : effect setting.converter s.store line.command with
    | update store =>
      rw [body_update _ (hsame.trans he), body_update _ he]
      exact ih _
    | leave =>
      rw [body_leave _ (hsame.trans he), body_leave _ he]
      rfl
    | halt =>
      rw [body_halt _ (hsame.trans he), body_halt _ he]
      rfl
    | print texts =>
      rcases hp : setting.sink.emitAll texts s.out with ⟨out, _ | reason⟩
      · rw [body_print _ (hsame.trans he) hp, body_print _ he hp]
        exact ih _
      · rw [body_print_failed _ (hsame.trans he) hp, body_print_failed _ he hp]
        rfl
    | enter block =>
      have hcall := hrun block line.span s
      rcases hr : run block line.span s with ⟨exit, t⟩
      rw [hr] at hcall
      cases exit with
      | returned =>
        rw [body_enter_returned _ (hsame.trans he) hcall, body_enter_returned _ he hr]
        exact ih t
      | halted | failed =>
        rw [body_enter_stopped _ (hsame.trans he) hcall (by simp [Exit.moved]),
          body_enter_stopped _ he hr (by simp)]
        rfl

theorem call_moved (room : Nat) (block : Text) (span : Span) (s : State σ) :
    call (setting.moved place sourceId) room block (place span) s
      = (call setting room block span s).map (Exit.moved place sourceId) id := by
  induction room generalizing block span s with
  | zero =>
    cases hp : setting.blocks.line? block with
    | none =>
      rw [call_unknown setting 0 span hp, call_unknown (setting.moved place sourceId) 0 _ hp]
      rfl
    | some position =>
      rw [call_zero setting span hp, call_zero (setting.moved place sourceId) _ hp]
      rfl
  | succ room ih =>
    cases hp : setting.blocks.line? block with
    | none =>
      rw [call_unknown setting _ span hp, call_unknown (setting.moved place sourceId) _ _ hp]
      rfl
    | some position =>
      rw [call_succ setting room span hp, call_succ (setting.moved place sourceId) room _ hp,
        ← body_moved place sourceId setting ih, List.map_drop]
      rfl

theorem run_moved (out : σ) :
    run (setting.moved place sourceId) out
      = (run setting out).map (Except.mapError (Failure.moved place sourceId)) id := by
  cases hp : setting.blocks.line? entryBlock with
  | none =>
    rw [run_of_no_entry setting out hp, run_of_no_entry (setting.moved place sourceId) out hp]
    rfl
  | some position =>
    have hbody := body_moved place sourceId setting
      (call_moved place sourceId setting setting.limit)
      (setting.script.lines.drop (position + 1)) ⟨{}, out⟩
    rw [List.map_drop] at hbody
    have hrun := run_of_entry (setting.moved place sourceId) out hp
    rw [run_of_entry setting out hp, Prod.map_apply, ← outcomeOf_moved]
    exact hrun.trans (congrArg (fun result => (outcomeOf result.1, result.2)) hbody)

end Engine

/-- A run of the script with its lines in other places ends in the same way, up to the place to
blame, with the same output, variables and blocks. -/
theorem Session.run_moved {σ : Type} (session : Session) (sink : Sink σ) (out : σ)
    (place : Span → Span) (sourceId : Nat) :
    let moved : Session := { session with script := session.script.moved place sourceId }
    (moved.run sink out).1
        = (session.run sink out).1.mapError (Failure.moved place sourceId) ∧
      (moved.run sink out).2.1 = (session.run sink out).2.1 ∧
      (moved.run sink out).2.2.store = (session.run sink out).2.2.store ∧
      (moved.run sink out).2.2.blocks = (session.run sink out).2.2.blocks := by
  intro moved
  have hblocks := Blocks.ofScript_moved place sourceId session.script
  have hsetting : moved.setting sink = (session.setting sink).moved place sourceId := by
    simp only [moved, Session.setting, hblocks]
    rfl
  rw [Session.run_eq, Session.run_eq, hsetting, Engine.run_moved]
  exact ⟨rfl, rfl, rfl, hblocks⟩

end LineScript
