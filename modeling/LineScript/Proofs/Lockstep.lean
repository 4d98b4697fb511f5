import LineScript.Proofs.CallChain
import LineScript.Proofs.Discovery
import Mathlib.Data.List.Forall2

/-!
Two runs side by side. The scripts, converters and sinks may differ as long as corresponding lines act
alike on alike states, and calls lead to frames that correspond again. Main statement: such runs have
the same outcome and end in alike states.
-/

namespace LineScript

/-- Changes nothing when it is run: a comment or a label. -/
def Line.Idle (line : Line) : Prop :=
  line.command = none ∨ ∃ name, line.command = some (.label name)

namespace Engine

variable {σ τ : Type}

/-- The same demand on the frame, up to the block that is called. -/
inductive Action.Alike (calls : Text → Text → Prop) : Action → Action → Prop
  | proceed : Alike calls .proceed .proceed
  | leave : Alike calls .leave .leave
  | halt : Alike calls .halt .halt
  | fail (failure : Failure) : Alike calls (.fail failure) (.fail failure)
  | enter {block block' : Text} : calls block block' → Alike calls (.enter block) (.enter block')

theorem Action.alike_self {calls : Text → Text → Prop} (action : Action)
    (h : ∀ block, action = .enter block → calls block block) :
    Action.Alike calls action action := by
  cases action with
  | proceed => exact .proceed
  | leave => exact .leave
  | halt => exact .halt
  | fail failure => exact .fail failure
  | enter block => exact .enter (h block rfl)

theorem act_idle {line : Line} (setting : Setting σ) (s : State σ) (h : line.Idle) :
    act setting line.command s = (.proceed, s) := by
  rcases h with hc | ⟨name, hc⟩ <;> rw [hc] <;> rfl

theorem goesOn_of_act {setting : Setting σ} {line : Line} {s t : State σ} {action : Action}
    (h : act setting line.command s = (action, t)) (hleave : action ≠ .leave)
    (hhalt : action ≠ .halt) : line.GoesOn := by
  constructor
  · intro hc
    rw [hc] at h
    cases h
    exact hleave rfl
  · intro hc
    rw [hc] at h
    cases h
    exact hhalt rfl

/-- A setting reads nothing but its converter and its sink to act on a command. -/
theorem act_congr {left right : Setting σ} (hc : right.converter = left.converter)
    (hs : right.sink = left.sink) (command : Option Command) (s : State σ) :
    act right command s = act left command s := by
  rw [act_eq_perform, act_eq_perform, hc, hs]

theorem mayCall_of_act {setting : Setting σ} {line : Line} {s : State σ} {block : Text}
    (h : (act setting line.command s).1 = .enter block) : line.MayCall block := by
  rw [act_eq_perform] at h
  cases he : effect setting.converter s.store line.command with
  | enter name =>
    rw [he] at h
    cases h
    exact mayCall_of_effect he
  | print texts =>
    simp only [he, perform] at h
    split at h <;> cases h
  | update | leave | halt =>
    rw [he] at h
    cases h

section

variable (left : Setting σ) (right : Setting τ) (alike : State σ → State τ → Prop)
  (calls : Text → Text → Prop)

/-- Two lines that do the same to alike states. -/
structure LinesAlike (line line' : Line) : Prop where
  span : line'.span = line.span
  acts : ∀ s s', alike s s' →
    Action.Alike calls (act left line.command s).1 (act right line'.command s').1 ∧
      alike (act left line.command s).2 (act right line'.command s').2

/-- Two frames with lines that act alike, up to idle lines of the first and to what comes after a
line that ends the frame. -/
inductive FramesAlike : List Line → List Line → Prop
  | nil : FramesAlike [] []
  | skip {line : Line} {lines lines' : List Line} : line.Idle → FramesAlike lines lines' →
      FramesAlike (line :: lines) lines'
  | cons {line line' : Line} {lines lines' : List Line} :
      LinesAlike left right alike calls line line' → (line.GoesOn → FramesAlike lines lines') →
      FramesAlike (line :: lines) (line' :: lines')

/-- Alike states, and the same way of ending. -/
def ResultsAlike (result : Exit × State σ) (result' : Exit × State τ) : Prop :=
  result'.1 = result.1 ∧ alike result.2 result'.2

/-- Calls of corresponding blocks end alike. -/
def CallsAlike (run : Text → Span → State σ → Exit × State σ)
    (run' : Text → Span → State τ → Exit × State τ) : Prop :=
  ∀ block block' span s s', calls block block' → alike s s' →
    ResultsAlike alike (run block span s) (run' block' span s')

end

section

variable {left : Setting σ} {right : Setting τ} {alike : State σ → State τ → Prop}
  {calls : Text → Text → Prop} {lines lines' : List Line}

/-- With one converter and one sink, a line does the same to equal states. -/
theorem linesAlike_self {left right : Setting σ} (hc : right.converter = left.converter)
    (hs : right.sink = left.sink) (line : Line)
    (hcalls : ∀ block, line.MayCall block → calls block block) :
    LinesAlike left right (fun s s' => s' = s) calls line line := by
  refine ⟨rfl, ?_⟩
  rintro _ s rfl
  rw [act_congr hc hs]
  exact ⟨Action.alike_self _ fun block hblock => hcalls block (mayCall_of_act hblock), rfl⟩

theorem framesAlike_of_forall₂
    (h : List.Forall₂ (LinesAlike left right alike calls) lines lines') :
    FramesAlike left right alike calls lines lines' := by
  induction h with
  | nil => exact .nil
  | cons hline _ ih => exact .cons hline fun _ => ih

/-- Lines that correspond one by one, labels included, make blocks that do. -/
theorem blocksAlike_of_forall₂ {Corresponds : Line → Line → Prop} {name name' : Text}
    (hlabel : ∀ line line', Corresponds line line' →
      (line'.label? = some name' ↔ line.label? = some name))
    (hline : ∀ line line', Corresponds line line' → LinesAlike left right alike calls line line')
    (h : List.Forall₂ Corresponds lines lines') :
    Option.Rel (FramesAlike left right alike calls) (blockLines? name lines)
      (blockLines? name' lines') := by
  induction h with
  | nil => exact .none
  | @cons line line' lines lines' hc hrest ih =>
    by_cases hl : line.label? = some name
    · have hl' := (hlabel line line' hc).2 hl
      simp only [blockLines?, hl, hl', if_true]
      exact .some (framesAlike_of_forall₂ (hrest.imp hline))
    · have hl' := mt (hlabel line line' hc).1 hl
      simp only [blockLines?, hl, hl', if_false]
      exact ih

theorem body_alike {run : Text → Span → State σ → Exit × State σ}
    {run' : Text → Span → State τ → Exit × State τ} (hcalls : CallsAlike alike calls run run')
    (h : FramesAlike left right alike calls lines lines') (s : State σ) (s' : State τ)
    (hs : alike s s') :
    ResultsAlike alike (body left run lines s) (body right run' lines' s') := by
  induction h generalizing s s' with
  | nil => exact ⟨rfl, hs⟩
  | skip hidle _ ih =>
    simp only [body, act_idle left s hidle]
    exact ih s s' hs
  | @cons line line' lines lines' hline _ ih =>
    obtain ⟨haction, hstate⟩ := hline.acts s s' hs
    rcases ha : act left line.command s with ⟨action, t⟩
    rcases ha' : act right line'.command s' with ⟨action', t'⟩
    rw [ha, ha'] at haction hstate
    simp only [body, ha, ha', hline.span]
    -- The lines after this one correspond only if it goes on, as it does wherever they are run.
    cases haction with
    | proceed => exact ih (goesOn_of_act ha (by simp) (by simp)) t t' hstate
    | leave | halt | fail => exact ⟨rfl, hstate⟩
    | @enter block block' hblock =>
      obtain ⟨hexit, hresult⟩ := hcalls block block' line.span t t' hblock hstate
      rcases hr : run block line.span t with ⟨exit, u⟩
      rcases hr' : run' block' line.span t' with ⟨exit', u'⟩
      rw [hr, hr'] at hexit hresult
      cases hexit
      simp only [hr, hr']
      cases exit with
      | returned => exact ih (goesOn_of_act ha (by simp) (by simp)) u u' hresult
      | halted | failed => exact ⟨rfl, hresult⟩

end

/-- Two settings whose runs keep in step. -/
structure Coupling (left : Setting σ) (right : Setting τ) where
  /-- The states that the two runs may be in at the same time. -/
  alike : State σ → State τ → Prop
  /-- The block that the second run calls when the first one calls a block. -/
  calls : Text → Text → Prop
  limit : right.limit = left.limit
  sourceId : right.script.sourceId = left.script.sourceId
  entry : calls entryBlock entryBlock
  frames : ∀ block block', calls block block' →
    Option.Rel (FramesAlike left right alike calls) (left.frame? block) (right.frame? block')

namespace Coupling

variable {left : Setting σ} {right : Setting τ}

/-- Corresponding blocks are both unknown, or they have frames that correspond. -/
theorem line?_cases (c : Coupling left right) {block block' : Text} (h : c.calls block block') :
    (left.blocks.line? block = none ∧ right.blocks.line? block' = none) ∨
      ∃ position position', left.blocks.line? block = some position ∧
        right.blocks.line? block' = some position' ∧
        FramesAlike left right c.alike c.calls (left.script.lines.drop (position + 1))
          (right.script.lines.drop (position' + 1)) := by
  have hframes := c.frames block block' h
  generalize hf : left.frame? block = frame at hframes
  generalize hf' : right.frame? block' = frame' at hframes
  cases hframes with
  | none => exact .inl ⟨frame?_eq_none.1 hf, frame?_eq_none.1 hf'⟩
  | some hlines =>
    obtain ⟨position, hp, rfl⟩ := frame?_eq_some.1 hf
    obtain ⟨position', hp', rfl⟩ := frame?_eq_some.1 hf'
    exact .inr ⟨position, position', hp, hp', hlines⟩

theorem call_alike (c : Coupling left right) (room : Nat) :
    CallsAlike c.alike c.calls (call left room) (call right room) := by
  induction room with
  | zero =>
    intro block block' span s s' hblock hs
    obtain ⟨hp, hp'⟩ | ⟨position, position', hp, hp', _⟩ := c.line?_cases hblock
    · rw [call_unknown left 0 span hp, call_unknown right 0 span hp']
      exact ⟨rfl, hs⟩
    · rw [call_zero left span hp, call_zero right span hp']
      refine ⟨?_, hs⟩
      simp only [overflow, c.limit, c.sourceId]
  | succ room ih =>
    intro block block' span s s' hblock hs
    obtain ⟨hp, hp'⟩ | ⟨position, position', hp, hp', hlines⟩ := c.line?_cases hblock
    · rw [call_unknown left (room + 1) span hp, call_unknown right (room + 1) span hp']
      exact ⟨rfl, hs⟩
    · rw [call_succ left room span hp, call_succ right room span hp']
      exact body_alike ih hlines s s' hs

/-- Coupled settings have the same outcome, and alike states stay alike up to the end. -/
theorem run_alike (c : Coupling left right) {out : σ} {out' : τ}
    (h : c.alike ⟨{}, out⟩ ⟨{}, out'⟩) :
    (run right out').1 = (run left out).1 ∧ c.alike (run left out).2 (run right out').2 := by
  obtain ⟨hp, hp'⟩ | ⟨position, position', hp, hp', hlines⟩ := c.line?_cases c.entry
  · rw [run_of_no_entry left out hp, run_of_no_entry right out' hp']
    exact ⟨rfl, h⟩
  · rw [run_of_entry left out hp, run_of_entry right out' hp', c.limit]
    obtain ⟨hexit, hstate⟩ := body_alike (c.call_alike left.limit) hlines _ _ h
    exact ⟨congrArg outcomeOf hexit, hstate⟩

theorem session_run_alike {session session' : Session} {sink : Sink σ} {sink' : Sink τ}
    (c : Coupling (session.setting sink) (session'.setting sink')) {out : σ} {out' : τ}
    (h : c.alike ⟨{}, out⟩ ⟨{}, out'⟩) :
    (session'.run sink' out').1 = (session.run sink out).1 ∧
      c.alike ⟨(session.run sink out).2.2.store, (session.run sink out).2.1⟩
        ⟨(session'.run sink' out').2.2.store, (session'.run sink' out').2.1⟩ :=
  c.run_alike h

/-- If only equal states are alike, the two runs cannot be told apart. -/
theorem session_run_eq {session session' : Session} {sink : Sink σ}
    (c : Coupling (session.setting sink) (session'.setting sink))
    (halike : ∀ s s', c.alike s s' ↔ s' = s) (out : σ) :
    (session'.run sink out).1 = (session.run sink out).1 ∧
      (session'.run sink out).2.1 = (session.run sink out).2.1 ∧
      (session'.run sink out).2.2.store = (session.run sink out).2.2.store := by
  obtain ⟨houtcome, hstate⟩ := c.session_run_alike ((halike ⟨{}, out⟩ ⟨{}, out⟩).2 rfl)
  have heq := (halike _ _).1 hstate
  exact ⟨houtcome, congrArg State.out heq, congrArg State.store heq⟩

/-- A run in step with itself, on states with a property that every line keeps. -/
def ofInvariant (setting : Setting σ) (Holds : State σ → Prop)
    (hstep : ∀ line ∈ setting.script.lines, ∀ s, Holds s → Holds (act setting line.command s).2) :
    Coupling setting setting where
  alike s s' := s' = s ∧ Holds s
  calls block block' := block' = block
  limit := rfl
  sourceId := rfl
  entry := rfl
  frames := by
    rintro _ block rfl
    cases hf : setting.frame? block with
    | none => exact .none
    | some lines =>
      obtain ⟨position, _, rfl⟩ := frame?_eq_some.1 hf
      refine .some (framesAlike_of_forall₂ (List.forall₂_same.2 ?_))
      intro line hline
      refine ⟨rfl, ?_⟩
      rintro _ s ⟨rfl, hs⟩
      exact ⟨Action.alike_self _ fun _ _ => rfl, rfl, hstep line (List.mem_of_mem_drop hline) s hs⟩

end Coupling

/-- What every line keeps holds at the end of a run, whatever its outcome. -/
theorem run_invariant {setting : Setting σ} {out : σ} (Holds : State σ → Prop)
    (hstep : ∀ line ∈ setting.script.lines, ∀ s, Holds s → Holds (act setting line.command s).2)
    (h : Holds ⟨{}, out⟩) : Holds (run setting out).2 :=
  ((Coupling.ofInvariant setting Holds hstep).run_alike ⟨rfl, h⟩).2.2

end Engine

end LineScript
