import LineScript.Proofs.Effect
import LineScript.Proofs.Emission

/-!
A run apart from its sink. The lines that a frame emits and the way it ends do not depend on the
sink, except that the first line that fails is the last. Main statement: every run of a session is
the play of one transcript, on whatever sink.
-/

namespace LineScript.Engine

variable {σ τ : Type}

/-- The same script and limit with another sink. -/
def Setting.withSink (setting : Setting σ) (sink : Sink τ) : Setting τ where
  script := setting.script
  blocks := setting.blocks
  converter := setting.converter
  sink := sink
  limit := setting.limit

/-- What a frame does from given variables on if no output fails. -/
structure Transcript (setting : Setting σ) (before : Store) where
  lines : List Text
  exit : Exit
  after : Store
  covers : after.Covers before
  /-- Without the sink, only the limit makes a frame fail. -/
  overflows : ∀ failure, exit = .failed failure → ∃ span, failure = overflow setting span

namespace Transcript

variable {setting : Setting σ} {before mid : Store} {sink : Sink τ} {out out' : τ}
  {result : Exit × State τ} {reason : Text}

/-- The result of emitting the lines and, if none of them fails, of ending as the transcript
does. -/
def Plays (t : Transcript setting before) (sink : Sink τ) (out : τ) (result : Exit × State τ) :
    Prop :=
  match sink.emitAll t.lines out with
  | (out, none) => result = (t.exit, ⟨t.after, out⟩)
  | (out, some reason) => ∃ store, result = (.failed { cause := .output reason }, ⟨store, out⟩)

theorem Plays.eq {t : Transcript setting before} (h : t.Plays sink out result)
    (he : sink.emitAll t.lines out = (out', none)) : result = (t.exit, ⟨t.after, out'⟩) := by
  simpa only [Plays, he] using h

theorem Plays.eq_failed {t : Transcript setting before} (h : t.Plays sink out result)
    (he : sink.emitAll t.lines out = (out', some reason)) :
    ∃ store, result = (.failed { cause := .output reason }, ⟨store, out'⟩) := by
  simpa only [Plays, he] using h

theorem Plays.of_neverFails {t : Transcript setting before} (h : t.Plays sink out result)
    (hs : sink.NeverFails out) :
    ∃ out', sink.emitAll t.lines out = (out', none) ∧ result = (t.exit, ⟨t.after, out'⟩) := by
  have he := hs.emitAll_eq t.lines
  exact ⟨_, he, h.eq he⟩

/-- Ends at once, without a line. -/
def silent (before : Store) (exit : Exit)
    (h : ∀ failure, exit = .failed failure → ∃ span, failure = overflow setting span) :
    Transcript setting before :=
  ⟨[], exit, before, Store.Covers.refl before, h⟩

/-- First some lines, then a transcript. -/
def prepend (lines : List Text) (t : Transcript setting mid) (h : mid.Covers before) :
    Transcript setting before :=
  ⟨lines ++ t.lines, t.exit, t.after, t.covers.trans h, t.overflows⟩

theorem prepend_plays {t : Transcript setting mid} {lines : List Text} (h : mid.Covers before)
    (he : sink.emitAll lines out = (out', none)) (hp : t.Plays sink out' result) :
    (t.prepend lines h).Plays sink out result := by
  simpa only [Plays, prepend, Sink.emitAll_append t.lines he] using hp

theorem prepend_plays_failed {t : Transcript setting mid} {lines : List Text} {store : Store}
    (h : mid.Covers before) (he : sink.emitAll lines out = (out', some reason)) :
    (t.prepend lines h).Plays sink out
      (.failed { cause := .output reason }, ⟨store, out'⟩) := by
  simp only [Plays, prepend, Sink.emitAll_append_failed t.lines he]
  exact ⟨store, rfl⟩

end Transcript

variable {setting : Setting σ}

theorem effect_withSink (setting : Setting σ) (sink : Sink τ) (store : Store) (out : τ)
    (command : Option Command) :
    effect (setting.withSink sink).converter (State.mk store out).store command
      = effect setting.converter store command := rfl

/-- If one transcript tells each call on every sink, then one transcript tells the frame. -/
theorem exists_transcript_body
    {run : ∀ τ : Type, Sink τ → Text → Span → State τ → Exit × State τ}
    (hrun : ∀ block span store, ∃ t : Transcript setting store, ∀ (τ : Type) (sink : Sink τ) out,
      t.Plays sink out (run τ sink block span ⟨store, out⟩))
    (lines : List Line) (store : Store) :
    ∃ t : Transcript setting store, ∀ (τ : Type) (sink : Sink τ) out,
      t.Plays sink out (body (setting.withSink sink) (run τ sink) lines ⟨store, out⟩) := by
  induction lines generalizing store with
  | nil => exact ⟨.silent store .returned (by simp), fun τ sink out => rfl⟩
  | cons line lines ih =>
    have hsame (τ : Type) (sink : Sink τ) (out : τ) :=
      effect_withSink setting sink store out line.command
    cases he : effect setting.converter store line.command with
    | update after =>
      obtain ⟨t, ht⟩ := ih after
      refine ⟨t.prepend [] (covers_of_effect he), ?_⟩
      intro τ sink out
      rw [body_update lines ((hsame τ sink out).trans he)]
      exact Transcript.prepend_plays _ rfl (ht τ sink out)
    | print texts =>
      obtain ⟨t, ht⟩ := ih store
      refine ⟨t.prepend texts (Store.Covers.refl store), ?_⟩
      intro τ sink out
      rcases hp : sink.emitAll texts out with ⟨out', _ | reason⟩
      · rw [body_print lines ((hsame τ sink out).trans he) hp]
        exact Transcript.prepend_plays _ hp (ht τ sink out')
      · rw [body_print_failed lines ((hsame τ sink out).trans he) hp]
        exact Transcript.prepend_plays_failed _ hp
    | leave =>
      refine ⟨.silent store .returned (by simp), ?_⟩
      intro τ sink out
      rw [body_leave lines ((hsame τ sink out).trans he)]
      rfl
    | halt =>
      refine ⟨.silent store .halted (by simp), ?_⟩
      intro τ sink out
      rw [body_halt lines ((hsame τ sink out).trans he)]
      rfl
    | enter block =>
      obtain ⟨t, ht⟩ := hrun block line.span store
      -- The transcript of the call tells whether the frame goes on, before any sink is known.
      by_cases hexit : t.exit = .returned
      · obtain ⟨u, hu⟩ := ih t.after
        refine ⟨u.prepend t.lines t.covers, ?_⟩
        intro τ sink out
        rcases hp : sink.emitAll t.lines out with ⟨out', _ | reason⟩
        · have hr := (ht τ sink out).eq hp
          rw [hexit] at hr
          rw [body_enter_returned lines ((hsame τ sink out).trans he) hr]
          exact Transcript.prepend_plays _ hp (hu τ sink out')
        · obtain ⟨after, hr⟩ := (ht τ sink out).eq_failed hp
          rw [body_enter_stopped lines ((hsame τ sink out).trans he) hr (by simp)]
          exact Transcript.prepend_plays_failed _ hp
      · refine ⟨t, ?_⟩
        intro τ sink out
        have hplays := ht τ sink out
        rcases hp : sink.emitAll t.lines out with ⟨out', _ | reason⟩
        · have hr := hplays.eq hp
          rw [body_enter_stopped lines ((hsame τ sink out).trans he) hr hexit]
          rwa [hr] at hplays
        · obtain ⟨after, hr⟩ := hplays.eq_failed hp
          rw [body_enter_stopped lines ((hsame τ sink out).trans he) hr (by simp)]
          rwa [hr] at hplays

theorem exists_transcript_call (setting : Setting σ) (room : Nat) (block : Text) (span : Span)
    (store : Store) :
    ∃ t : Transcript setting store, ∀ (τ : Type) (sink : Sink τ) out,
      t.Plays sink out (call (setting.withSink sink) room block span ⟨store, out⟩) := by
  induction room generalizing block span store with
  | zero =>
    cases hb : setting.blocks.line? block with
    | none =>
      refine ⟨.silent store .returned (by simp), ?_⟩
      intro τ sink out
      exact call_unknown (setting.withSink sink) 0 span hb
    | some position =>
      refine ⟨.silent store (.failed (overflow setting span)) ?_, ?_⟩
      · rintro failure ⟨rfl⟩
        exact ⟨span, rfl⟩
      · intro τ sink out
        exact call_zero (setting.withSink sink) span hb
  | succ room ih =>
    cases hb : setting.blocks.line? block with
    | none =>
      refine ⟨.silent store .returned (by simp), ?_⟩
      intro τ sink out
      exact call_unknown (setting.withSink sink) (room + 1) span hb
    | some position =>
      obtain ⟨t, ht⟩ := exists_transcript_body ih (setting.script.lines.drop (position + 1)) store
      refine ⟨t, ?_⟩
      intro τ sink out
      rw [call_succ (setting.withSink sink) room span hb]
      exact ht τ sink out

theorem exists_transcript (setting : Setting σ) (room : Nat) (lines : List Line)
    (store : Store) :
    ∃ t : Transcript setting store, ∀ (τ : Type) (sink : Sink τ) out, t.Plays sink out
      (body (setting.withSink sink) (call (setting.withSink sink) room) lines ⟨store, out⟩) :=
  exists_transcript_body (exists_transcript_call setting room) lines store

/-- The lines of a session and its outcome tell what every sink gets and how every run ends. -/
theorem exists_transcript_run (session : Session) :
    ∃ (lines : List Text) (outcome : Outcome), ∀ (τ : Type) (sink : Sink τ) out,
      (session.run sink out).2.1 = (sink.emitAll lines out).1 ∧
      (session.run sink out).1 = (sink.emitAll lines out).2.elim outcome
        fun reason => .error { cause := .output reason } := by
  cases hb : (Blocks.ofScript session.script).line? entryBlock with
  | none =>
    refine ⟨[], .error { cause := .noEntry }, ?_⟩
    intro τ sink out
    rw [Session.run_eq, run_of_no_entry (session.setting sink) out hb]
    exact ⟨rfl, rfl⟩
  | some position =>
    obtain ⟨t, ht⟩ := exists_transcript (session.setting Sink.gather) session.limit
      (session.script.lines.drop (position + 1)) {}
    refine ⟨t.lines, outcomeOf t.exit, ?_⟩
    intro τ sink out
    have hplays : t.Plays sink out (body (session.setting sink)
      (call (session.setting sink) (session.setting sink).limit)
      ((session.setting sink).script.lines.drop (position + 1)) ⟨{}, out⟩) := ht τ sink out
    rw [Session.run_eq, run_of_entry (session.setting sink) out hb]
    rcases hp : sink.emitAll t.lines out with ⟨out', _ | reason⟩
    · rw [hplays.eq hp]
      exact ⟨rfl, rfl⟩
    · obtain ⟨store, hr⟩ := hplays.eq_failed hp
      rw [hr]
      exact ⟨rfl, rfl⟩

end LineScript.Engine
