import LineScript.Proofs.Emission

/-!
What a device holds after some lines were emitted on it: all of them, the first bytes if its room is
limited, or the first lines if its flushes are.
-/

namespace LineScript

namespace Device

variable {d : Device}

/-- The bytes of a line with its line feed. -/
def chunk (line : Text) : List UInt8 := Text.utf8 (line ++ ['\n'])

theorem chunk_eq (line : Text) : chunk line = Text.utf8 line ++ Text.utf8 ['\n'] := by
  simp [chunk, Text.utf8]

theorem contents_keep (d : Device) (bytes : List UInt8) :
    (d.keep bytes).contents = d.contents ++ bytes := by
  simp [contents, keep]

/-- What a write does to the bytes and the room of a device. -/
theorem write_room {n : Nat} (text : Text) (h : d.room = some n) :
    ∃ d', write text d = (d', if (Text.utf8 text).length ≤ n then none
        else some "disk full".toList) ∧
      d'.room = some (n - (Text.utf8 text).length) ∧ d'.flushes = d.flushes ∧
      d'.contents = d.contents ++ (Text.utf8 text).take n := by
  simp only [write, h]
  exact ⟨_, rfl, rfl, rfl, contents_keep d _⟩

theorem emit_room {n : Nat} (line : Text) (h : d.room = some n) (hf : d.flushes = none) :
    ∃ d', sink.emit line d = (d', if (chunk line).length ≤ n then none
        else some "disk full".toList) ∧
      d'.room = some (n - (chunk line).length) ∧ d'.flushes = none ∧
      d'.contents = d.contents ++ (chunk line).take n := by
  obtain ⟨d₁, hw₁, hr₁, hf₁, hc₁⟩ := write_room line h
  obtain ⟨d₂, hw₂, hr₂, hf₂, hc₂⟩ := write_room ['\n'] hr₁
  rw [chunk_eq, List.length_append, List.take_append]
  by_cases hfit : (Text.utf8 line).length ≤ n
  · rw [if_pos hfit] at hw₁
    have hflush : d₂.flush = (d₂, none) := by simp only [flush, hf₂, hf₁, hf]
    refine ⟨d₂, ?_, ?_, ?_, ?_⟩
    · by_cases hfit₂ : (Text.utf8 ['\n']).length ≤ n - (Text.utf8 line).length
      · rw [if_pos hfit₂] at hw₂
        rw [if_pos (by omega)]
        simp only [Sink.emit, sink, hw₁, hw₂, hflush]
      · rw [if_neg hfit₂] at hw₂
        rw [if_neg (by omega)]
        simp only [Sink.emit, sink, hw₁, hw₂]
    · rw [hr₂, Nat.sub_sub]
    · rw [hf₂, hf₁, hf]
    · rw [hc₂, hc₁, List.append_assoc]
  · rw [if_neg hfit] at hw₁
    refine ⟨d₁, ?_, ?_, ?_, ?_⟩
    · rw [if_neg (by omega)]
      simp only [Sink.emit, sink, hw₁]
    · rw [hr₁]
      congr 1
      omega
    · rw [hf₁, hf]
    · have hnone : n - (Text.utf8 line).length = 0 := by omega
      rw [hc₁, hnone, List.take_zero, List.append_nil]

/-- With room for `n` bytes, a device takes the first `n` bytes of what is emitted. -/
theorem emitAll_room {n : Nat} (lines : List Text) (h : d.room = some n) (hf : d.flushes = none) :
    (sink.emitAll lines d).1.contents = d.contents ++ (lines.flatMap chunk).take n ∧
    (sink.emitAll lines d).2 = if (lines.flatMap chunk).length ≤ n then none
      else some "disk full".toList := by
  induction lines generalizing d n with
  | nil => simp [Sink.emitAll]
  | cons line lines ih =>
    obtain ⟨d', he, hr, hf', hc⟩ := emit_room line h hf
    rw [List.flatMap_cons, List.length_append, List.take_append]
    by_cases hfit : (chunk line).length ≤ n
    · rw [if_pos hfit] at he
      simp only [Sink.emitAll, he]
      obtain ⟨hcontents, hfailed⟩ := ih hr hf'
      rw [hcontents, hfailed, hc, List.append_assoc]
      refine ⟨rfl, ?_⟩
      congr 1
      exact propext ⟨fun hle => by omega, fun hle => by omega⟩
    · rw [if_neg hfit] at he
      have hnone : n - (chunk line).length = 0 := by omega
      simp only [Sink.emitAll, he]
      rw [hc, hnone, List.take_zero, List.append_nil, if_neg (by omega)]
      exact ⟨rfl, rfl⟩

/-- With room for every byte, only the flush of a line can fail. -/
theorem emit_roomy (line : Text) (h : d.room = none) :
    ∃ d' : Device, sink.emit line d = d'.flush ∧ d'.room = none ∧ d'.flushes = d.flushes ∧
      d'.contents = d.contents ++ chunk line := by
  refine ⟨(d.keep (Text.utf8 line)).keep (Text.utf8 ['\n']), ?_, h, rfl, ?_⟩
  · simp only [Sink.emit, sink, write, h, keep]
  · rw [contents_keep, contents_keep, chunk_eq, List.append_assoc]

theorem emitAll_unlimited (lines : List Text) (h : d.room = none) (hf : d.flushes = none) :
    (sink.emitAll lines d).1.contents = d.contents ++ lines.flatMap chunk ∧
    (sink.emitAll lines d).2 = none := by
  induction lines generalizing d with
  | nil => simp [Sink.emitAll]
  | cons line lines ih =>
    obtain ⟨d', he, hr, hf', hc⟩ := emit_roomy line h
    rw [hf] at hf'
    simp only [flush, hf'] at he
    simp only [Sink.emitAll, he, List.flatMap_cons]
    rw [← List.append_assoc, ← hc]
    exact ih hr hf'

/-- The line whose flush fails was written before. -/
theorem emitAll_flushes {n : Nat} (lines : List Text) (h : d.room = none)
    (hf : d.flushes = some n) :
    (sink.emitAll lines d).1.contents = d.contents ++ (lines.take (n + 1)).flatMap chunk ∧
    (sink.emitAll lines d).2 = if lines.length ≤ n then none
      else some "flush failed".toList := by
  induction lines generalizing d n with
  | nil => simp [Sink.emitAll]
  | cons line lines ih =>
    obtain ⟨d', he, hr, hf', hc⟩ := emit_roomy line h
    rw [hf] at hf'
    rw [List.take_succ_cons, List.flatMap_cons, ← List.append_assoc, ← hc]
    cases n with
    | zero =>
      simp only [flush, hf'] at he
      simp [Sink.emitAll, he]
    | succ n =>
      simp only [flush, hf'] at he
      simp only [Sink.emitAll, he, List.length_cons, Nat.add_le_add_iff_right]
      exact ih (d := { d' with flushes := some n }) hr rfl

theorem neverFails_unlimited (h : d.room = none) (hf : d.flushes = none) :
    sink.NeverFails d :=
  fun lines => (emitAll_unlimited lines h hf).2

theorem contents_prefix_write (text : Text) (d : Device) :
    d.contents <+: (write text d).1.contents := by
  cases hr : d.room with
  | none =>
    simp only [write, hr, contents_keep]
    exact List.prefix_append _ _
  | some room =>
    obtain ⟨d', hw, _, _, hc⟩ := write_room text hr
    rw [hw, hc]
    exact List.prefix_append _ _

theorem contents_flush (d : Device) : d.flush.1.contents = d.contents := by
  unfold flush
  split <;> rfl

theorem appends_contents : sink.Appends contents where
  write := contents_prefix_write
  flush d := by
    have h := contents_flush d
    exact h ▸ List.prefix_rfl

end Device

end LineScript
