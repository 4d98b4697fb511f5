import LineScript.Proofs.Device
import LineScript.Proofs.Transcript

/-!
Runs with different limits on calls. Main statement: on a sink that never fails, a greater limit
gives the same run unless the smaller one was exceeded, and then it only adds to the output and to
the variables.
-/

namespace LineScript

namespace Engine

variable {σ : Type}

/-- The same script and sink with another limit. -/
def Setting.withLimit (setting : Setting σ) (limit : Nat) : Setting σ := { setting with limit }

/-- A state that comes from another by emitting lines and giving values to variables. -/
def Extends (sink : Sink σ) (after before : State σ) : Prop :=
  (∃ lines, sink.emitAll lines before.out = (after.out, none)) ∧ after.store.Covers before.store

variable {sink : Sink σ} {setting : Setting σ} {s t u : State σ}

theorem Extends.refl (sink : Sink σ) (s : State σ) : Extends sink s s :=
  ⟨⟨[], rfl⟩, Store.Covers.refl s.store⟩

theorem Extends.trans (hut : Extends sink u t) (hts : Extends sink t s) : Extends sink u s := by
  obtain ⟨⟨xs, hx⟩, hxs⟩ := hts
  obtain ⟨⟨ys, hy⟩, hys⟩ := hut
  exact ⟨⟨xs ++ ys, (Sink.emitAll_append ys hx).trans hy⟩, hys.trans hxs⟩

theorem Extends.neverFails (h : Extends sink t s) (hs : sink.NeverFails s.out) :
    sink.NeverFails t.out := by
  obtain ⟨⟨lines, he⟩, _⟩ := h
  exact hs.after he

theorem frame_extends (setting : Setting σ) (room : Nat) (lines : List Line)
    (hs : setting.sink.NeverFails s.out) :
    Extends setting.sink (body setting (call setting room) lines s).2 s ∧
      ∀ failure, (body setting (call setting room) lines s).1 = .failed failure →
        ∃ span, failure = overflow setting span := by
  obtain ⟨t, ht⟩ := exists_transcript setting room lines s.store
  obtain ⟨out, he, hr⟩ := (ht σ setting.sink s.out).of_neverFails hs
  have hb : body setting (call setting room) lines s = (t.exit, ⟨t.after, out⟩) := hr
  rw [hb]
  exact ⟨⟨⟨t.lines, he⟩, t.covers⟩, t.overflows⟩

theorem call_extends (setting : Setting σ) (room : Nat) (block : Text) (span : Span)
    (hs : setting.sink.NeverFails s.out) :
    Extends setting.sink (call setting room block span s).2 s := by
  obtain ⟨t, ht⟩ := exists_transcript_call setting room block span s.store
  obtain ⟨out, he, hr⟩ := (ht σ setting.sink s.out).of_neverFails hs
  have hc : call setting room block span s = (t.exit, ⟨t.after, out⟩) := hr
  rw [hc]
  exact ⟨⟨t.lines, he⟩, t.covers⟩

/-- The first result is the second one, or it is that of a run which was cut short. -/
def Cuts (sink : Sink σ) (short long : Exit × State σ) : Prop :=
  long = short ∨ Overflowed (outcomeOf short.1) ∧ Extends sink long.2 short.2

theorem not_overflowed_returned : ¬ Overflowed (outcomeOf .returned) := by
  rintro ⟨failure, limit, h, _⟩
  cases h

theorem overflowed_overflow (setting : Setting σ) (span : Span) :
    Overflowed (outcomeOf (.failed (overflow setting span))) :=
  ⟨_, setting.limit, rfl, rfl⟩

theorem body_cuts (limit : Nat) {room room' : Nat}
    (hcall : ∀ block span s, setting.sink.NeverFails s.out → Cuts setting.sink
      (call setting room block span s) (call (setting.withLimit limit) room' block span s))
    (lines : List Line) (s : State σ) (hs : setting.sink.NeverFails s.out) :
    Cuts setting.sink (body setting (call setting room) lines s)
      (body (setting.withLimit limit) (call (setting.withLimit limit) room') lines s) := by
  induction lines generalizing s with
  | nil => exact .inl rfl
  | cons line lines ih =>
    have hsame : effect (setting.withLimit limit).converter s.store line.command
        = effect setting.converter s.store line.command := rfl
    cases he : effect setting.converter s.store line.command with
    | update store =>
      rw [body_update lines he, body_update lines (hsame.trans he)]
      exact ih { s with store } hs
    | print texts =>
      have hp := hs.emitAll_eq texts
      rw [body_print lines he hp, body_print lines (hsame.trans he) hp]
      exact ih _ (hs.after hp)
    | leave =>
      rw [body_leave lines he, body_leave lines (hsame.trans he)]
      exact .inl rfl
    | halt =>
      rw [body_halt lines he, body_halt lines (hsame.trans he)]
      exact .inl rfl
    | enter block =>
      have hc := hcall block line.span s hs
      have hext := call_extends setting room block line.span hs
      rcases hr : call setting room block line.span s with ⟨exit, t⟩
      rcases hr' : call (setting.withLimit limit) room' block line.span s with ⟨exit', t'⟩
      rw [hr] at hext
      rw [hr, hr'] at hc
      rcases hc with heq | ⟨hover, hlong⟩
      · cases heq
        cases exit with
        | returned =>
          rw [body_enter_returned lines he hr, body_enter_returned lines (hsame.trans he) hr']
          exact ih t (hext.neverFails hs)
        | halted | failed =>
          rw [body_enter_stopped lines he hr (by simp),
            body_enter_stopped lines (hsame.trans he) hr' (by simp)]
          exact .inl rfl
      · -- The short run ends here; the long one may go on, and all that it does extends the state.
        have hne : exit ≠ .returned := by
          rintro rfl
          exact not_overflowed_returned hover
        rw [body_enter_stopped lines he hr hne]
        refine .inr ⟨hover, ?_⟩
        by_cases hexit : exit' = .returned
        · subst hexit
          rw [body_enter_returned lines (hsame.trans he) hr']
          have hnever := hlong.neverFails (hext.neverFails hs)
          exact (frame_extends (setting.withLimit limit) room' lines hnever).1.trans hlong
        · rw [body_enter_stopped lines (hsame.trans he) hr' hexit]
          exact hlong

theorem call_cuts (limit : Nat) {room room' : Nat} (h : room ≤ room') (block : Text) (span : Span)
    (s : State σ) (hs : setting.sink.NeverFails s.out) :
    Cuts setting.sink (call setting room block span s)
      (call (setting.withLimit limit) room' block span s) := by
  induction room generalizing room' block span s with
  | zero =>
    cases hb : setting.blocks.line? block with
    | none =>
      rw [call_unknown setting 0 span hb, call_unknown (setting.withLimit limit) room' span hb]
      exact .inl rfl
    | some position =>
      rw [call_zero setting span hb]
      exact .inr ⟨overflowed_overflow setting span,
        call_extends (setting.withLimit limit) room' block span hs⟩
  | succ room ih =>
    obtain ⟨room', rfl⟩ : ∃ k, room' = k + 1 := ⟨room' - 1, by omega⟩
    cases hb : setting.blocks.line? block with
    | none =>
      rw [call_unknown setting _ span hb, call_unknown (setting.withLimit limit) _ span hb]
      exact .inl rfl
    | some position =>
      rw [call_succ setting room span hb, call_succ (setting.withLimit limit) room' span hb]
      exact body_cuts limit (fun block span s hs => ih (by omega) block span s hs) _ s hs

theorem run_cuts (setting : Setting σ) {limit : Nat} {out : σ} (h : setting.limit ≤ limit)
    (hs : setting.sink.NeverFails out) :
    run (setting.withLimit limit) out = run setting out ∨
      Overflowed (run setting out).1 ∧
        Extends setting.sink (run (setting.withLimit limit) out).2 (run setting out).2 := by
  cases hb : setting.blocks.line? entryBlock with
  | none =>
    left
    rw [run_of_no_entry setting out hb, run_of_no_entry (setting.withLimit limit) out hb]
  | some position =>
    rw [run_of_entry setting out hb, run_of_entry (setting.withLimit limit) out hb]
    have hcuts := body_cuts limit (call_cuts limit h)
      (setting.script.lines.drop (position + 1)) ⟨{}, out⟩ hs
    rcases hcuts with heq | hcut
    · left
      exact congrArg (fun r : Exit × State σ => (outcomeOf r.1, r.2)) heq
    · exact .inr hcut

/-- On such a sink only the limit makes a run of the entry block fail. -/
theorem run_extends (setting : Setting σ) {out : σ} (hs : setting.sink.NeverFails out) :
    Extends setting.sink (run setting out).2 ⟨{}, out⟩ ∧
      (¬ Overflowed (run setting out).1 →
        (run setting out).1 = .ok .finished ∨ (run setting out).1 = .ok .halted ∨
          (run setting out).1 = .error { cause := .noEntry }) := by
  cases hb : setting.blocks.line? entryBlock with
  | none =>
    rw [run_of_no_entry setting out hb]
    exact ⟨Extends.refl _ _, fun _ => .inr (.inr rfl)⟩
  | some position =>
    rw [run_of_entry setting out hb]
    obtain ⟨hext, hfail⟩ := frame_extends (s := ⟨{}, out⟩) setting setting.limit
      (setting.script.lines.drop (position + 1)) hs
    refine ⟨hext, ?_⟩
    intro hover
    rcases hr : (body setting (call setting setting.limit)
      (setting.script.lines.drop (position + 1)) ⟨{}, out⟩).1 with _ | _ | failure
    · exact .inl rfl
    · exact .inr (.inl rfl)
    · obtain ⟨span, rfl⟩ := hfail failure hr
      rw [hr] at hover
      exact (hover (overflowed_overflow setting span)).elim

end Engine

/-- A greater limit changes nothing of a run that kept to the smaller one; to a run that did not it
adds lines and variables and takes nothing away. -/
theorem limit_only_cuts_short {σ : Type} (session : Session) (sink : Sink σ) (out : σ)
    (hs : sink.NeverFails out) {d d' : Nat} (hd : d ≤ d') :
    let short := ({ session with limit := d } : Session).run sink out
    let long := ({ session with limit := d' } : Session).run sink out
    (¬ Overflowed short.1 →
      (short.1 = .ok .finished ∨ short.1 = .ok .halted ∨
        short.1 = .error { cause := .noEntry }) ∧
      long.1 = short.1 ∧ long.2.1 = short.2.1 ∧ long.2.2.store = short.2.2.store) ∧
    (Overflowed short.1 →
      (∃ lines more, sink.emitAll lines out = (short.2.1, none) ∧
        sink.emitAll (lines ++ more) out = (long.2.1, none)) ∧
      (∀ bytes, sink.Appends bytes → bytes short.2.1 <+: bytes long.2.1) ∧
      ∀ name, (short.2.2.store.lookup name).isSome → (long.2.2.store.lookup name).isSome) := by
  intro short long
  let setting := ({ session with limit := d } : Session).setting sink
  have hcut := Engine.run_cuts setting hd hs
  obtain ⟨⟨⟨lines, hl⟩, _⟩, houtcome⟩ := Engine.run_extends setting hs
  refine ⟨?_, ?_⟩
  · intro hover
    refine ⟨houtcome hover, ?_⟩
    obtain heq | ⟨hbad, _⟩ := hcut
    · exact ⟨congrArg (fun r : Outcome × Engine.State σ => r.1) heq,
        congrArg (fun r : Outcome × Engine.State σ => r.2.out) heq,
        congrArg (fun r : Outcome × Engine.State σ => r.2.store) heq⟩
    · exact (hover hbad).elim
  · intro hover
    have hext : Engine.Extends sink (Engine.run (setting.withLimit d') out).2
        (Engine.run setting out).2 := by
      obtain heq | ⟨_, hext⟩ := hcut
      · rw [heq]
        exact Engine.Extends.refl _ _
      · exact hext
    obtain ⟨⟨more, hm⟩, hcovers⟩ := hext
    refine ⟨⟨lines, more, hl, (Sink.emitAll_append more hl).trans hm⟩, ?_, hcovers⟩
    intro bytes hbytes
    have hprefix := hbytes.emitAll more (Engine.run setting out).2.out
    rw [hm] at hprefix
    exact hprefix

/-- With room for one call the chant stops after two lines, which are the first of the four that it
prints with room for three. -/
theorem chant_cut_short :
    Device.sink.NeverFails {} ∧
      (({ script := chant, limit := 1 } : Session).run Device.sink {}).1
        = .error ⟨.overflow 1, some ⟨18, 29⟩, 0⟩ ∧
      (({ script := chant, limit := 1 } : Session).run Device.sink {}).2.1.contents <+:
        (({ script := chant, limit := 3 } : Session).run Device.sink {}).2.1.contents := by
  have hs : Device.sink.NeverFails {} := Device.neverFails_unlimited rfl rfl
  have h := limit_only_cuts_short { script := chant } Device.sink {} hs (show 1 ≤ 3 by decide)
  exact ⟨hs, rfl, (h.2 ⟨_, 1, rfl, rfl⟩).2.1 _ Device.appends_contents⟩

end LineScript
