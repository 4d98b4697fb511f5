import LineScript.Sink

/-! Emitting several lines, one after the other, and sinks on which that never fails. -/
namespace LineScript.Sink

variable {σ : Type} {sink : Sink σ} {out mid : σ} {xs : List Text} {reason : Text}

theorem emitAll_append (ys : List Text) (h : sink.emitAll xs out = (mid, none)) :
    sink.emitAll (xs ++ ys) out = sink.emitAll ys mid := by
  induction xs generalizing out with
  | nil =>
    cases h
    rfl
  | cons line rest ih =>
    simp only [List.cons_append, emitAll] at h ⊢
    rcases he : sink.emit line out with ⟨next, _ | reason⟩ <;> simp only [he] at h ⊢
    · exact ih h
    · cases h

/-- Nothing is emitted after the first line that fails. -/
theorem emitAll_append_failed (ys : List Text) (h : sink.emitAll xs out = (mid, some reason)) :
    sink.emitAll (xs ++ ys) out = (mid, some reason) := by
  induction xs generalizing out with
  | nil => cases h
  | cons line rest ih =>
    simp only [List.cons_append, emitAll] at h ⊢
    rcases he : sink.emit line out with ⟨next, _ | reason⟩ <;> simp only [he] at h ⊢
    · exact ih h
    · exact h

/-- From this state on, whatever lines are emitted. -/
def NeverFails (sink : Sink σ) (out : σ) : Prop := ∀ lines, (sink.emitAll lines out).2 = none

theorem NeverFails.emitAll_eq (h : sink.NeverFails out) (lines : List Text) :
    sink.emitAll lines out = ((sink.emitAll lines out).1, none) := by
  rw [← h lines]

theorem NeverFails.after (h : sink.NeverFails out) (he : sink.emitAll xs out = (mid, none)) :
    sink.NeverFails mid := by
  intro lines
  rw [← emitAll_append lines he]
  exact h (xs ++ lines)

/-- Writing and flushing take nothing away from the bytes that the sink is seen to hold. -/
structure Appends (sink : Sink σ) (bytes : σ → List UInt8) : Prop where
  write : ∀ text out, bytes out <+: bytes (sink.write text out).1
  flush : ∀ out, bytes out <+: bytes (sink.flush out).1

variable {bytes : σ → List UInt8}

theorem Appends.emit (h : sink.Appends bytes) (line : Text) (out : σ) :
    bytes out <+: bytes (sink.emit line out).1 := by
  have hline := h.write line out
  unfold Sink.emit
  rcases hw : sink.write line out with ⟨mid, _ | reason⟩ <;> rw [hw] at hline
  · have hfeed := hline.trans (h.write ['\n'] mid)
    simp only
    rcases hn : sink.write ['\n'] mid with ⟨next, _ | reason⟩ <;> rw [hn] at hfeed
    · exact hfeed.trans (h.flush next)
    · exact hfeed
  · exact hline

theorem Appends.emitAll (h : sink.Appends bytes) (lines : List Text) (out : σ) :
    bytes out <+: bytes (sink.emitAll lines out).1 := by
  induction lines generalizing out with
  | nil => exact List.prefix_rfl
  | cons line lines ih =>
    have hline := h.emit line out
    simp only [Sink.emitAll]
    rcases he : sink.emit line out with ⟨mid, _ | reason⟩ <;> rw [he] at hline
    · exact hline.trans (ih mid)
    · exact hline

end LineScript.Sink
