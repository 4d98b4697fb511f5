import LineScript.Engine

/-!
A script made ready to run, any number of times. Each run finds the blocks anew and begins with an
empty store, so it shows nothing of the runs before it.
-/

namespace LineScript

/-- How many calls may be inside one another if nothing else is asked for. -/
def defaultLimit : Nat := 256

structure Session where
  script : Script
  converter : Converter := Converter.standard
  limit : Nat := defaultLimit
  /-- The blocks that the latest run found. -/
  blocks : Blocks := {}
  /-- The variables at the end of the latest run. -/
  store : Store := {}

namespace Session

variable {σ : Type}

/-- What a run of the session works with. -/
def setting (session : Session) (sink : Sink σ) : Engine.Setting σ where
  script := session.script
  blocks := Blocks.ofScript session.script
  converter := session.converter
  sink := sink
  limit := session.limit

/-- Runs the script; the session keeps the blocks and the variables, whatever the outcome. -/
def run (session : Session) (sink : Sink σ) (out : σ) : Outcome × σ × Session :=
  let setting := session.setting sink
  let (outcome, state) := Engine.run setting out
  (outcome, state.out, { session with blocks := setting.blocks, store := state.store })

end Session

/-- Runs a script in a fresh session. -/
def Script.run {σ : Type} (script : Script) (sink : Sink σ) (out : σ) : Outcome × σ :=
  let (outcome, out, _) := ({ script } : Session).run sink out
  (outcome, out)

/-- Everything that was gathered. -/
def gathered (chunks : List Text) : Text := chunks.reverse.flatten

end LineScript
