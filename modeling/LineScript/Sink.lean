import LineScript.Text.Basic

/-!
Where a run's output goes. A sink takes text and can fail at it, and a line is put through before
the next one is begun.
-/

namespace LineScript

/-- Ways to write text to a state and to flush it; each may give a reason why it failed. -/
structure Sink (σ : Type) where
  write : Text → σ → σ × Option Text
  flush : σ → σ × Option Text

namespace Sink

variable {σ : Type}

/-- Writes a line with its line feed and flushes it. -/
def emit (sink : Sink σ) (line : Text) (out : σ) : σ × Option Text :=
  match sink.write line out with
  | (out, some reason) => (out, some reason)
  | (out, none) =>
    match sink.write ['\n'] out with
    | (out, some reason) => (out, some reason)
    | (out, none) => sink.flush out

/-- Emits lines up to the first that fails. -/
def emitAll (sink : Sink σ) : List Text → σ → σ × Option Text
  | [], out => (out, none)
  | line :: rest, out =>
    match sink.emit line out with
    | (out, some reason) => (out, some reason)
    | (out, none) => sink.emitAll rest out

end Sink

/-- A device that keeps the bytes written to it. The bytes that it takes and the flushes that it
performs may be limited. -/
structure Device where
  room : Option Nat := none
  flushes : Option Nat := none
  /-- What was written, the latest first. -/
  chunks : List (List UInt8) := []
  deriving DecidableEq, Repr

namespace Device

/-- All bytes in the order in which they were written. -/
def contents (d : Device) : List UInt8 := d.chunks.reverse.flatten

def keep (d : Device) (bytes : List UInt8) : Device := { d with chunks := bytes :: d.chunks }

/-- Takes the bytes for which there is room, and fails if some are left. -/
def write (text : Text) (d : Device) : Device × Option Text :=
  let bytes := Text.utf8 text
  match d.room with
  | none => (d.keep bytes, none)
  | some room =>
    let d := { d.keep (bytes.take room) with room := some (room - bytes.length) }
    (d, if bytes.length ≤ room then none else some "disk full".toList)

def flush (d : Device) : Device × Option Text :=
  match d.flushes with
  | none => (d, none)
  | some 0 => (d, some "flush failed".toList)
  | some (left + 1) => ({ d with flushes := some left }, none)

def sink : Sink Device := ⟨write, flush⟩

end Device

/-- A sink that gathers the texts written to it, the latest first. -/
def Sink.gather : Sink (List Text) := ⟨fun text out => (text :: out, none), fun out => (out, none)⟩

end LineScript
