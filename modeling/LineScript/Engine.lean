import LineScript.Blocks
import LineScript.Failure
import LineScript.Render
import LineScript.Sink

/-!
Running a script. A frame runs lines up to a return, a halt or the end of the script, and a call
runs a frame of its own before the next line. Calls inside one another are limited, so every run
ends.
-/

namespace LineScript.Engine

variable {σ : Type}

/-- What stays the same throughout a run. -/
structure Setting (σ : Type) where
  script : Script
  blocks : Blocks
  converter : Converter
  sink : Sink σ
  /-- How many calls may be inside one another. -/
  limit : Nat

/-- What a run changes. -/
structure State (σ : Type) where
  store : Store
  out : σ

/-- What a line makes of the frame that runs it. -/
inductive Action where
  | proceed
  | leave
  | halt
  | enter (block : Text)
  | fail (failure : Failure)
  deriving DecidableEq, Repr

/-- How a frame ends. -/
inductive Exit where
  | returned
  | halted
  | failed (failure : Failure)
  deriving DecidableEq, Repr

/-- Emits lines; the place of an output failure is not known. -/
def print (setting : Setting σ) (lines : List Text) (s : State σ) : Action × State σ :=
  match setting.sink.emitAll lines s.out with
  | (out, none) => (.proceed, { s with out })
  | (out, some reason) => (.fail { cause := .output reason }, { s with out })

/-- A line that renders to nothing is not printed. -/
def printLine (setting : Setting σ) (line : Template) (s : State σ) : Action × State σ :=
  let text := line.render setting.converter s.store
  print setting (if text = [] then [] else [text]) s

/-- The effect of one command on the state, and what the frame is to do next. -/
def act (setting : Setting σ) (command : Option Command) (s : State σ) : Action × State σ :=
  match command with
  | none => (.proceed, s)
  | some .halt => (.halt, s)
  | some (.label _) => (.proceed, s)
  | some .leave => (.leave, s)
  | some (.call block) => (.enter block, s)
  | some (.assign target value) => (.proceed, { s with store := s.store.assign target value })
  | some (.copy target source) =>
    (.proceed, { s with store := (s.store.copy? source target).getD s.store })
  | some (.branch b) =>
    match b.target s.store with
    | some block => (.enter block, s)
    | none => (.proceed, s)
  | some (.identify value) =>
    print setting (setting.converter.identify (s.store.resolve value)) s
  | some (.convert line) => printLine setting line s
  | some (.say line) => printLine setting line s

/-- Runs the lines of a frame, where `call` runs a block for the line at a span. -/
def body (setting : Setting σ) (call : Text → Span → State σ → Exit × State σ) :
    List Line → State σ → Exit × State σ
  | [], s => (.returned, s)
  | line :: rest, s =>
    match act setting line.command s with
    | (.proceed, s) => body setting call rest s
    | (.leave, s) => (.returned, s)
    | (.halt, s) => (.halted, s)
    | (.fail failure, s) => (.failed failure, s)
    | (.enter block, s) =>
      match call block line.span s with
      | (.returned, s) => body setting call rest s
      | stopped => stopped

/-- The failure of a call at a span beyond the limit. -/
def overflow (setting : Setting σ) (span : Span) : Failure where
  cause := .overflow setting.limit
  span := some span
  sourceId := setting.script.sourceId

/-- Runs a block in a frame of its own, with `room` left for calls inside one another; a block that
does not exist is skipped. -/
def call (setting : Setting σ) : Nat → Text → Span → State σ → Exit × State σ
  | 0, block, span, s =>
    match setting.blocks.line? block with
    | none => (.returned, s)
    | some _ => (.failed (overflow setting span), s)
  | room + 1, block, _, s =>
    match setting.blocks.line? block with
    | none => (.returned, s)
    | some line => body setting (call setting room) (setting.script.lines.drop (line + 1)) s

def outcomeOf : Exit → Outcome
  | .returned => .ok .finished
  | .halted => .ok .halted
  | .failed failure => .error failure

/-- Runs the entry block from an empty store. -/
def run (setting : Setting σ) (out : σ) : Outcome × State σ :=
  match setting.blocks.line? entryBlock with
  | none => (.error { cause := .noEntry }, ⟨{}, out⟩)
  | some line =>
    let (exit, s) := body setting (call setting setting.limit)
      (setting.script.lines.drop (line + 1)) ⟨{}, out⟩
    (outcomeOf exit, s)

end LineScript.Engine
