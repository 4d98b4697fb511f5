import LineScript.Proofs.Device
import LineScript.Proofs.Transcript

/-!
Runs on sinks that fail. Main statement: a device with room for so many bytes, or for so many
flushes, keeps the first part of what a run emits on a sink that never fails, and the run ends the
same way unless the device was too small.
-/

namespace LineScript

/-- A sink that never fails and keeps what was written up to each flush as a piece of its own. -/
structure Ledger where
  pieces : List Text := []
  pending : Text := []
  deriving DecidableEq, Repr

namespace Ledger

def sink : Sink Ledger where
  write text l := ({ l with pending := l.pending ++ text }, none)
  flush l := (⟨l.pieces ++ [l.pending], []⟩, none)

theorem emitAll_eq (lines pieces : List Text) :
    sink.emitAll lines ⟨pieces, []⟩ = (⟨pieces ++ lines.map (· ++ ['\n']), []⟩, none) := by
  induction lines generalizing pieces with
  | nil => simp [Sink.emitAll]
  | cons line lines ih =>
    have he : sink.emit line ⟨pieces, []⟩ = (⟨pieces ++ [line ++ ['\n']], []⟩, none) := rfl
    simp only [Sink.emitAll, he, ih, List.map_cons, List.append_assoc, List.singleton_append]

end Ledger

/-- What a session emits on a sink that never fails tells what a device with room for `n` bytes, or
for `n` flushes, keeps of it: the first `n` bytes, or the first `n + 1` lines. The outcome is the
same unless the device was too small. -/
theorem device_keeps_first_part (session : Session) :
    let free := session.run Ledger.sink {}
    let chunks := free.2.1.pieces.map Text.utf8
    (∃ lines : List Text, free.2.1.pieces = lines.map (· ++ ['\n'])) ∧
    (session.run Device.sink {}).2.1.contents = chunks.flatten ∧
    (session.run Device.sink {}).1 = free.1 ∧
    (∀ n,
      (session.run Device.sink { room := some n }).2.1.contents
        = chunks.flatten.take (min n chunks.flatten.length) ∧
      (session.run Device.sink { room := some n }).1
        = if chunks.flatten.length ≤ n then free.1
          else .error ⟨.output "disk full".toList, none, 0⟩) ∧
    ∀ n,
      (session.run Device.sink { flushes := some n }).2.1.contents
        = (chunks.take (min chunks.length (n + 1))).flatten ∧
      (session.run Device.sink { flushes := some n }).1
        = if chunks.length ≤ n then free.1
          else .error ⟨.output "flush failed".toList, none, 0⟩ := by
  intro free chunks
  obtain ⟨lines, outcome, h⟩ := Engine.exists_transcript_run session
  have hledger := Ledger.emitAll_eq lines []
  have hpieces : free.2.1.pieces = lines.map (· ++ ['\n']) := by
    rw [(h Ledger Ledger.sink {}).1, hledger]
    rfl
  have houtcome : free.1 = outcome := by
    rw [(h Ledger Ledger.sink {}).2, hledger]
    rfl
  have hchunks : chunks = lines.map Device.chunk := by
    simp only [chunks, hpieces, List.map_map]
    rfl
  rw [houtcome, hchunks, ← List.flatMap_def, List.length_map]
  refine ⟨⟨lines, hpieces⟩, ?_, ?_, ?_, ?_⟩
  · rw [(h Device Device.sink {}).1, (Device.emitAll_unlimited lines rfl rfl).1]
    rfl
  · rw [(h Device Device.sink {}).2, (Device.emitAll_unlimited lines rfl rfl).2]
    rfl
  · intro n
    obtain ⟨hcontents, hfailed⟩ :=
      Device.emitAll_room (d := { room := some n }) lines rfl rfl
    rw [(h Device Device.sink _).1, (h Device Device.sink _).2, hcontents, hfailed]
    refine ⟨?_, ?_⟩
    · rw [← List.take_eq_take_min]
      rfl
    · split
      · rfl
      · rfl
  · intro n
    obtain ⟨hcontents, hfailed⟩ :=
      Device.emitAll_flushes (d := { flushes := some n }) lines rfl rfl
    rw [(h Device Device.sink _).1, (h Device Device.sink _).2, hcontents, hfailed]
    refine ⟨?_, ?_⟩
    · rw [List.flatMap_def, Nat.min_comm, ← List.map_take, ← List.take_eq_take_min]
      rfl
    · split
      · rfl
      · rfl

/-- With room for one call the chant emits eight bytes in two lines. A device with room for six of
them cuts the second line, one with room for all ends as the chant does, and one that cannot be
flushed keeps the first line. -/
theorem chant_on_devices :
    (({ script := chant, limit := 1 } : Session).run Ledger.sink {}).2.1.pieces
        = ["hey\n".toList, "hey\n".toList] ∧
      (({ script := chant, limit := 1 } : Session).run Device.sink { room := some 6 }).2.1.contents
        = Text.utf8 "hey\nhe".toList ∧
      (({ script := chant, limit := 1 } : Session).run Device.sink { room := some 6 }).1
        = .error ⟨.output "disk full".toList, none, 0⟩ ∧
      (({ script := chant, limit := 1 } : Session).run Device.sink { room := some 8 }).2.1.contents
        = Text.utf8 "hey\nhey\n".toList ∧
      (({ script := chant, limit := 1 } : Session).run Device.sink { room := some 8 }).1
        = .error ⟨.overflow 1, some ⟨18, 29⟩, 0⟩ ∧
      (({ script := chant, limit := 1 } : Session).run Device.sink
          { flushes := some 0 }).2.1.contents
        = Text.utf8 "hey\n".toList ∧
      (({ script := chant, limit := 1 } : Session).run Device.sink { flushes := some 0 }).1
        = .error ⟨.output "flush failed".toList, none, 0⟩ := by
  have hpieces : (({ script := chant, limit := 1 } : Session).run Ledger.sink {}).2.1.pieces
      = ["hey\n".toList, "hey\n".toList] := rfl
  have houtcome : (({ script := chant, limit := 1 } : Session).run Ledger.sink {}).1
      = .error ⟨.overflow 1, some ⟨18, 29⟩, 0⟩ := rfl
  obtain ⟨_, _, _, hroom, hflushes⟩ := device_keeps_first_part { script := chant, limit := 1 }
  rw [hpieces, houtcome] at hroom hflushes
  exact ⟨hpieces, (hroom 6).1, (hroom 6).2, (hroom 8).1, (hroom 8).2, (hflushes 0).1,
    (hflushes 0).2⟩

end LineScript
