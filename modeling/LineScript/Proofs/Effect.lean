import LineScript.Session

/-!
What one line does, told apart from the sink and the limit of a run. A frame is then a fold over the
effects of its lines, and every later fact about runs goes through the equations at the end.
-/

namespace LineScript

namespace Store

/-- A value for every variable that has one in the other store. -/
def Covers (after before : Store) : Prop :=
  ∀ name, (before.lookup name).isSome → (after.lookup name).isSome

theorem Covers.refl (store : Store) : store.Covers store := fun _ h => h

theorem Covers.trans {s t u : Store} (hut : u.Covers t) (hts : t.Covers s) : u.Covers s :=
  fun name h => hut name (hts name h)

theorem lookup_assign (store : Store) (name key value : Text) :
    (store.assign name value).lookup key = if key = name then some value else store.lookup key :=
  Table.get?_put store.values name key value

theorem assign_covers (store : Store) (name value : Text) :
    (store.assign name value).Covers store := by
  intro key h
  rw [lookup_assign]
  split
  · rfl
  · exact h

theorem copy?_covers {store after : Store} {source target : Text}
    (h : store.copy? source target = some after) : after.Covers store := by
  unfold copy? at h
  split at h
  · cases h
    exact assign_covers _ _ _
  · cases h

end Store

namespace Engine

variable {σ : Type}

/-- What a command asks for, given the variables. -/
inductive Effect where
  /-- To go on with these variables. -/
  | update (store : Store)
  | print (lines : List Text)
  | enter (block : Text)
  | leave
  | halt
  deriving DecidableEq, Repr

/-- The line that a template prints, if it is not empty. -/
def printed (converter : Converter) (store : Store) (line : Template) : List Text :=
  let text := line.render converter store
  if text = [] then [] else [text]

def effect (converter : Converter) (store : Store) : Option Command → Effect
  | none => .update store
  | some .halt => .halt
  | some (.label _) => .update store
  | some .leave => .leave
  | some (.call block) => .enter block
  | some (.assign target value) => .update (store.assign target value)
  | some (.copy target source) => .update ((store.copy? source target).getD store)
  | some (.branch b) => (b.target store).elim (.update store) .enter
  | some (.identify value) => .print (converter.identify (store.resolve value))
  | some (.convert line) => .print (printed converter store line)
  | some (.say line) => .print (printed converter store line)

def perform (sink : Sink σ) (s : State σ) : Effect → Action × State σ
  | .update store => (.proceed, { s with store })
  | .print lines =>
    match sink.emitAll lines s.out with
    | (out, none) => (.proceed, { s with out })
    | (out, some reason) => (.fail { cause := .output reason }, { s with out })
  | .enter block => (.enter block, s)
  | .leave => (.leave, s)
  | .halt => (.halt, s)

/-- Only printing looks at the sink, and nothing looks at the limit. -/
theorem act_eq_perform (setting : Setting σ) (command : Option Command) (s : State σ) :
    act setting command s
      = perform setting.sink s (effect setting.converter s.store command) := by
  cases command with
  | none => rfl
  | some command =>
    cases command with
    | branch b =>
      simp only [act, effect]
      cases b.target s.store <;> rfl
    | halt | label | leave | call | assign | copy | identify | convert | say => rfl

/-- No line takes the value of a variable away. -/
theorem covers_of_effect {converter : Converter} {store after : Store} {command : Option Command}
    (h : effect converter store command = .update after) : after.Covers store := by
  cases command with
  | none =>
    cases h
    exact Store.Covers.refl store
  | some command =>
    cases command with
    | label =>
      cases h
      exact Store.Covers.refl store
    | assign target value =>
      cases h
      exact Store.assign_covers store target value
    | copy target source =>
      cases h
      cases hc : store.copy? source target with
      | none => exact Store.Covers.refl store
      | some after => exact Store.copy?_covers hc
    | branch b =>
      simp only [effect] at h
      cases hb : b.target store <;> simp only [hb, Option.elim] at h
      · cases h
        exact Store.Covers.refl store
      · cases h
    | halt | leave | call | identify | convert | say => cases h

section

variable {setting : Setting σ} {run : Text → Span → State σ → Exit × State σ} {line : Line}
  {s : State σ} {store : Store} {texts : List Text} {block : Text} {out : σ} {reason : Text}

/-- What a frame does with its first line, by the effect of the line. -/
theorem body_cons (setting : Setting σ) (run : Text → Span → State σ → Exit × State σ)
    (line : Line) (rest : List Line) (s : State σ) :
    body setting run (line :: rest) s =
      match effect setting.converter s.store line.command with
      | .update store => body setting run rest { s with store }
      | .print texts =>
        match setting.sink.emitAll texts s.out with
        | (out, none) => body setting run rest { s with out }
        | (out, some reason) => (.failed { cause := .output reason }, { s with out })
      | .enter block =>
        match run block line.span s with
        | (.returned, t) => body setting run rest t
        | stopped => stopped
      | .leave => (.returned, s)
      | .halt => (.halted, s) := by
  rw [body, act_eq_perform]
  cases effect setting.converter s.store line.command with
  | update | leave | halt | enter => rfl
  | print texts =>
    dsimp only [perform]
    rcases setting.sink.emitAll texts s.out with ⟨out, _ | reason⟩ <;> rfl

theorem body_update (rest : List Line)
    (h : effect setting.converter s.store line.command = .update store) :
    body setting run (line :: rest) s = body setting run rest { s with store } := by
  rw [body_cons, h]

theorem body_print (rest : List Line)
    (h : effect setting.converter s.store line.command = .print texts)
    (he : setting.sink.emitAll texts s.out = (out, none)) :
    body setting run (line :: rest) s = body setting run rest { s with out } := by
  simp only [body_cons, h, he]

theorem body_print_failed (rest : List Line)
    (h : effect setting.converter s.store line.command = .print texts)
    (he : setting.sink.emitAll texts s.out = (out, some reason)) :
    body setting run (line :: rest) s
      = (.failed { cause := .output reason }, { s with out }) := by
  simp only [body_cons, h, he]

theorem body_leave (rest : List Line)
    (h : effect setting.converter s.store line.command = .leave) :
    body setting run (line :: rest) s = (.returned, s) := by
  rw [body_cons, h]

theorem body_halt (rest : List Line)
    (h : effect setting.converter s.store line.command = .halt) :
    body setting run (line :: rest) s = (.halted, s) := by
  rw [body_cons, h]

theorem body_enter_returned {t : State σ} (rest : List Line)
    (h : effect setting.converter s.store line.command = .enter block)
    (hr : run block line.span s = (.returned, t)) :
    body setting run (line :: rest) s = body setting run rest t := by
  simp only [body_cons, h, hr]

/-- A frame that ends otherwise than by returning ends every frame around it in the same way. -/
theorem body_enter_stopped {exit : Exit} {t : State σ} (rest : List Line)
    (h : effect setting.converter s.store line.command = .enter block)
    (hr : run block line.span s = (exit, t)) (hne : exit ≠ .returned) :
    body setting run (line :: rest) s = (exit, t) := by
  simp only [body_cons, h, hr]
  cases exit with
  | returned => exact (hne rfl).elim
  | halted | failed => rfl

theorem call_unknown (setting : Setting σ) (room : Nat) (span : Span)
    (h : setting.blocks.line? block = none) :
    call setting room block span s = (.returned, s) := by
  cases room <;> simp only [call, h]

theorem call_zero (setting : Setting σ) {position : Nat} (span : Span)
    (h : setting.blocks.line? block = some position) :
    call setting 0 block span s = (.failed (overflow setting span), s) := by
  simp only [call, h]

theorem call_succ (setting : Setting σ) {position : Nat} (room : Nat) (span : Span)
    (h : setting.blocks.line? block = some position) :
    call setting (room + 1) block span s
      = body setting (call setting room) (setting.script.lines.drop (position + 1)) s := by
  simp only [call, h]

theorem eq_failed_of_outcomeOf {exit : Exit} {failure : Failure}
    (h : outcomeOf exit = .error failure) : exit = .failed failure := by
  cases exit <;> cases h
  rfl

theorem run_of_no_entry (setting : Setting σ) (out : σ)
    (h : setting.blocks.line? entryBlock = none) :
    Engine.run setting out = (.error { cause := .noEntry }, ⟨{}, out⟩) := by
  simp only [Engine.run, h]

theorem run_of_entry (setting : Setting σ) {position : Nat} (out : σ)
    (h : setting.blocks.line? entryBlock = some position) :
    Engine.run setting out =
      (outcomeOf (body setting (call setting setting.limit)
          (setting.script.lines.drop (position + 1)) ⟨{}, out⟩).1,
        (body setting (call setting setting.limit)
          (setting.script.lines.drop (position + 1)) ⟨{}, out⟩).2) := by
  simp only [Engine.run, h]

end

end Engine

/-- The run failed by more calls inside one another than its limit allows. -/
def Overflowed (outcome : Outcome) : Prop :=
  ∃ failure limit, outcome = .error failure ∧ failure.cause = .overflow limit

/-- A run of a session is a run of the engine, whatever the session kept from earlier runs. -/
theorem Session.run_eq {σ : Type} (session : Session) (sink : Sink σ) (out : σ) :
    session.run sink out =
      ((Engine.run (session.setting sink) out).1, (Engine.run (session.setting sink) out).2.out,
        { session with
          blocks := Blocks.ofScript session.script
          store := (Engine.run (session.setting sink) out).2.store }) := rfl

/-- Greets and calls itself, so that only the limit on calls ends it. -/
def chant : Script where
  lines := [
    ⟨"::start[main]".toList, ⟨0, 13⟩, some (.label entryBlock)⟩,
    ⟨"hey".toList, ⟨14, 17⟩, some (.say [.literal "hey".toList])⟩,
    ⟨"::run[main]".toList, ⟨18, 29⟩, some (.call entryBlock)⟩]
  sourceId := 0

end LineScript
