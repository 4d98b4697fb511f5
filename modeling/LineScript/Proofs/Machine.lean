import LineScript.Proofs.Effect
import LineScript.Proofs.Emission
import Mathlib.Logic.Relation

/-!
A machine with an explicit stack of frames, each of them the number of the next line that it runs.
Main statement: from every state the machine stops, and a run of a session ends as the machine does.
-/

namespace LineScript.Machine

open Engine (Setting Effect effect body call)

structure State (σ : Type) where
  /-- The next line of every frame, the innermost first. -/
  stack : List Nat
  store : Store
  /-- The lines that the sink was given, the last of which may have failed. -/
  emitted : List Text
  out : σ

inductive Step (σ : Type) where
  | next (m : State σ)
  | stop (outcome : Outcome) (m : State σ)

variable {σ : Type}

/-- Gives lines to the sink up to the first that fails. -/
def emit (sink : Sink σ) : List Text → State σ → State σ × Option Text
  | [], m => (m, none)
  | line :: rest, m =>
    match sink.emit line m.out with
    | (out, none) => emit sink rest { m with emitted := m.emitted ++ [line], out }
    | (out, some reason) => ({ m with emitted := m.emitted ++ [line], out }, some reason)

def print (sink : Sink σ) (lines : List Text) (m : State σ) : Step σ :=
  match emit sink lines m with
  | (m, none) => .next m
  | (m, some reason) => .stop (.error { cause := .output reason }) m

/-- Pushes a frame for a block that a line calls; a block that does not exist is passed over. -/
def enter (setting : Setting σ) (block : Text) (span : Span) (i : Nat) (rest : List Nat)
    (m : State σ) : Step σ :=
  match setting.blocks.line? block with
  | none => .next { m with stack := (i + 1) :: rest }
  | some position =>
    if setting.limit + 1 ≤ m.stack.length then
      .stop (.error ⟨.overflow setting.limit, some span, setting.script.sourceId⟩) m
    else .next { m with stack := (position + 1) :: (i + 1) :: rest }

def step (setting : Setting σ) (m : State σ) : Step σ :=
  match m.stack with
  | [] => .stop (.ok .finished) m
  | i :: rest =>
    match setting.script.lines[i]? with
    | none => .next { m with stack := rest }
    | some line =>
      let advanced := { m with stack := (i + 1) :: rest }
      match line.command with
      | none => .next advanced
      | some .halt => .stop (.ok .halted) m
      | some (.label _) => .next advanced
      | some .leave => .next { m with stack := rest }
      | some (.call block) => enter setting block line.span i rest m
      | some (.assign target value) =>
        .next { advanced with store := m.store.assign target value }
      | some (.copy target source) =>
        .next { advanced with store := (m.store.copy? source target).getD m.store }
      | some (.branch b) =>
        match b.target m.store with
        | none => .next advanced
        | some block => enter setting block line.span i rest m
      | some (.identify value) =>
        print setting.sink (setting.converter.identify (m.store.resolve value)) advanced
      | some (.convert line) | some (.say line) =>
        let text := line.render setting.converter m.store
        print setting.sink (if text = [] then [] else [text]) advanced

def Next (setting : Setting σ) (m m' : State σ) : Prop := step setting m = .next m'

/-- Some steps, or none. -/
abbrev Steps (setting : Setting σ) : State σ → State σ → Prop :=
  Relation.ReflTransGen (Next setting)

def Stops (setting : Setting σ) (m : State σ) (outcome : Outcome) (final : State σ) : Prop :=
  ∃ last, Steps setting m last ∧ step setting last = .stop outcome final

/-- One frame, after the label of the entry block. -/
def start (position : Nat) (out : σ) : State σ := ⟨[position + 1], {}, [], out⟩

variable {setting : Setting σ} {m m' final : State σ} {outcome : Outcome} {i : Nat}
  {rest : List Nat} {line : Line}

theorem emit_eq (sink : Sink σ) (lines : List Text) (m : State σ) :
    ∃ given, sink.emitAll given m.out = sink.emitAll lines m.out ∧
      emit sink lines m =
        (⟨m.stack, m.store, m.emitted ++ given, (sink.emitAll lines m.out).1⟩,
          (sink.emitAll lines m.out).2) := by
  induction lines generalizing m with
  | nil => exact ⟨[], rfl, by simp [emit, Sink.emitAll]⟩
  | cons line lines ih =>
    rcases he : sink.emit line m.out with ⟨out, _ | reason⟩
    · obtain ⟨given, hg, hi⟩ := ih { m with emitted := m.emitted ++ [line], out }
      refine ⟨line :: given, ?_, ?_⟩
      · simpa only [Sink.emitAll, he] using hg
      · simp only [emit, Sink.emitAll, he, hi, List.append_assoc, List.singleton_append]
    · exact ⟨[line], by simp only [Sink.emitAll, he], by simp only [emit, Sink.emitAll, he]⟩

/-- A step on a line is its effect on the top frame. -/
theorem step_eq (hs : m.stack = i :: rest) (hl : setting.script.lines[i]? = some line) :
    step setting m =
      match effect setting.converter m.store line.command with
      | .update store => .next { m with stack := (i + 1) :: rest, store }
      | .print lines => print setting.sink lines { m with stack := (i + 1) :: rest }
      | .enter block => enter setting block line.span i rest m
      | .leave => .next { m with stack := rest }
      | .halt => .stop (.ok .halted) m := by
  unfold step
  simp only [hs, hl]
  cases hc : line.command with
  | none => rfl
  | some command =>
    cases command with
    | branch b =>
      simp only [effect]
      cases b.target m.store <;> rfl
    | halt | label | leave | call | assign | copy | identify | convert | say => rfl

section

variable {sink : Sink σ} {lines : List Text} {out : σ} {reason : Text}

theorem print_eq_next (h : sink.emitAll lines m.out = (out, none)) :
    ∃ given, sink.emitAll given m.out = (out, none) ∧
      print sink lines m = .next ⟨m.stack, m.store, m.emitted ++ given, out⟩ := by
  obtain ⟨given, hg, he⟩ := emit_eq sink lines m
  rw [h] at hg he
  exact ⟨given, hg, by simp only [print, he]⟩

theorem print_eq_stop (h : sink.emitAll lines m.out = (out, some reason)) :
    ∃ given, sink.emitAll given m.out = (out, some reason) ∧
      print sink lines m = .stop (.error { cause := .output reason })
        ⟨m.stack, m.store, m.emitted ++ given, out⟩ := by
  obtain ⟨given, hg, he⟩ := emit_eq sink lines m
  rw [h] at hg he
  exact ⟨given, hg, by simp only [print, he]⟩

theorem print_next (h : print sink lines m = .next m') :
    m'.stack = m.stack ∧
      ∃ given, m'.emitted = m.emitted ++ given ∧ sink.emitAll given m.out = (m'.out, none) := by
  rcases hr : sink.emitAll lines m.out with ⟨out, _ | reason⟩
  · obtain ⟨given, hg, hp⟩ := print_eq_next hr
    rw [hp] at h
    cases h
    exact ⟨rfl, given, rfl, hg⟩
  · obtain ⟨given, _, hp⟩ := print_eq_stop hr
    rw [hp] at h
    cases h

theorem print_stop (h : print sink lines m = .stop outcome final) :
    ∃ given reason, final.emitted = m.emitted ++ given ∧
      sink.emitAll given m.out = (final.out, some reason) ∧
      outcome = .error { cause := .output reason } := by
  rcases hr : sink.emitAll lines m.out with ⟨out, _ | reason⟩
  · obtain ⟨given, _, hp⟩ := print_eq_next hr
    rw [hp] at h
    cases h
  · obtain ⟨given, hg, hp⟩ := print_eq_stop hr
    rw [hp] at h
    cases h
    exact ⟨given, reason, rfl, hg, rfl⟩

end

/-- A step drops the top frame, moves it on, or pushes a frame while there is room; what it emits
does not fail. -/
theorem next_cases (h : Next setting m m') :
    (∃ i rest, m.stack = i :: rest ∧
      (m'.stack = rest ∨ m'.stack = (i + 1) :: rest ∨
        m.stack.length ≤ setting.limit ∧ ∃ p, m'.stack = p :: (i + 1) :: rest)) ∧
    ∃ given, m'.emitted = m.emitted ++ given ∧
      setting.sink.emitAll given m.out = (m'.out, none) := by
  unfold Next at h
  cases hs : m.stack with
  | nil =>
    simp only [step, hs] at h
    cases h
  | cons i rest =>
    cases hl : setting.script.lines[i]? with
    | none =>
      simp only [step, hs, hl] at h
      cases h
      exact ⟨⟨i, rest, rfl, .inl rfl⟩, [], by simp, rfl⟩
    | some line =>
      rw [step_eq hs hl] at h
      cases he : effect setting.converter m.store line.command with
      | update store =>
        simp only [he] at h
        cases h
        exact ⟨⟨i, rest, rfl, .inr (.inl rfl)⟩, [], by simp, rfl⟩
      | print lines =>
        simp only [he] at h
        obtain ⟨hp, given, hg, hout⟩ := print_next h
        exact ⟨⟨i, rest, rfl, .inr (.inl hp)⟩, given, hg, hout⟩
      | leave =>
        simp only [he] at h
        cases h
        exact ⟨⟨i, rest, rfl, .inl rfl⟩, [], by simp, rfl⟩
      | halt =>
        simp only [he] at h
        cases h
      | enter block =>
        simp only [he, enter] at h
        split at h
        · cases h
          exact ⟨⟨i, rest, rfl, .inr (.inl rfl)⟩, [], by simp, rfl⟩
        · rename_i position _
          split at h
          · cases h
          · rename_i hroom
            cases h
            rw [hs] at hroom
            exact ⟨⟨i, rest, rfl, .inr (.inr ⟨by omega, _, rfl⟩)⟩, [], by simp, rfl⟩

/-- Only an output failure stops the machine in the middle of what a line emits. -/
theorem stop_cases (h : step setting m = .stop outcome final) :
    ∃ given failed, final.emitted = m.emitted ++ given ∧
      setting.sink.emitAll given m.out = (final.out, failed) ∧
      ∀ reason, failed = some reason ↔ outcome = .error { cause := .output reason } := by
  cases hs : m.stack with
  | nil =>
    simp only [step, hs] at h
    cases h
    exact ⟨[], none, by simp, rfl, by simp⟩
  | cons i rest =>
    cases hl : setting.script.lines[i]? with
    | none =>
      simp only [step, hs, hl] at h
      cases h
    | some line =>
      rw [step_eq hs hl] at h
      cases he : effect setting.converter m.store line.command with
      | update | leave =>
        simp only [he] at h
        cases h
      | print lines =>
        simp only [he] at h
        obtain ⟨given, reason, hg, hout, rfl⟩ := print_stop h
        exact ⟨given, some reason, hg, hout, by simp⟩
      | halt =>
        simp only [he] at h
        cases h
        exact ⟨[], none, by simp, rfl, by simp⟩
      | enter block =>
        simp only [he, enter] at h
        split at h
        · cases h
        · split at h
          · cases h
            exact ⟨[], none, by simp, rfl, by simp⟩
          · cases h

/-- What the sink has become is what the lines given to it make of the sink that the run began
with. -/
def Recorded (sink : Sink σ) (out : σ) (m : State σ) : Prop :=
  sink.emitAll m.emitted out = (m.out, none)

theorem recorded_next {out : σ} (h : Next setting m m') (hr : Recorded setting.sink out m) :
    Recorded setting.sink out m' := by
  obtain ⟨_, given, hg, hout⟩ := next_cases h
  rw [Recorded, hg, Sink.emitAll_append given hr, hout]

theorem recorded_steps {out : σ} (h : Steps setting m m') (hr : Recorded setting.sink out m) :
    Recorded setting.sink out m' := by
  induction h with
  | refl => exact hr
  | tail _ hn ih => exact recorded_next hn ih

theorem recorded_stop {out : σ} (h : step setting m = .stop outcome final)
    (hr : Recorded setting.sink out m) :
    (setting.sink.emitAll final.emitted out).1 = final.out ∧
      ∀ reason, (setting.sink.emitAll final.emitted out).2 = some reason ↔
        outcome = .error { cause := .output reason } := by
  obtain ⟨given, failed, hg, hout, hf⟩ := stop_cases h
  have he : setting.sink.emitAll final.emitted out = (final.out, failed) := by
    rw [hg, Sink.emitAll_append given hr, hout]
  rw [he]
  exact ⟨rfl, hf⟩

/-- The entry frame and one for each call that the limit allows. -/
theorem stack_length_steps (h : Steps setting m m') (hm : m.stack.length ≤ setting.limit + 1) :
    m'.stack.length ≤ setting.limit + 1 := by
  induction h with
  | refl => exact hm
  | @tail u v _ hn ih =>
    obtain ⟨⟨i, rest, hs, hv⟩, _⟩ := next_cases hn
    rw [hs] at ih hv
    rcases hv with hv | hv | ⟨hroom, p, hv⟩ <;> rw [hv] <;> simp only [List.length_cons] at * <;>
      omega

end LineScript.Machine
