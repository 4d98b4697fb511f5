import LineScript.Proofs.Machine

/-!
Frames of the engine on the machine. Each frame and each call of the engine is a stretch of machine
steps on top of the frames around it, so a run of a session is a run of the machine.
-/

namespace LineScript.Machine

open Engine (Setting Effect Exit effect body call)

variable {σ : Type} {setting : Setting σ} {m m' final : State σ} {outcome : Outcome}

/-- The machine ends its top frame as the result says: it comes back to the frames below or
stops. -/
def Ends (setting : Setting σ) (below : List Nat) (m : State σ) (result : Exit × Engine.State σ) :
    Prop :=
  ∃ stack emitted,
    let final : State σ := ⟨stack, result.2.store, emitted, result.2.out⟩
    match result.1 with
    | .returned => stack = below ∧ Steps setting m final
    | .halted => Stops setting m (.ok .halted) final
    | .failed failure => Stops setting m (.error failure) final

theorem stops_of_steps (h : Steps setting m m') (hs : Stops setting m' outcome final) :
    Stops setting m outcome final := by
  obtain ⟨last, hl, hstop⟩ := hs
  exact ⟨last, h.trans hl, hstop⟩

theorem ends_of_steps {below : List Nat} {result : Exit × Engine.State σ}
    (h : Steps setting m m') (he : Ends setting below m' result) :
    Ends setting below m result := by
  obtain ⟨stack, emitted, he⟩ := he
  refine ⟨stack, emitted, ?_⟩
  rcases result with ⟨_ | _ | failure, s⟩
  · exact ⟨he.1, h.trans he.2⟩
  · exact stops_of_steps h he
  · exact stops_of_steps h he

/-- Calls end on the machine as `run` says, made from any line of a frame above `below`. -/
def CallsEnd (setting : Setting σ) (below : List Nat)
    (run : Text → Span → Engine.State σ → Exit × Engine.State σ) : Prop :=
  ∀ i line block s emitted, setting.script.lines[i]? = some line →
    effect setting.converter s.store line.command = .enter block →
    Ends setting ((i + 1) :: below) ⟨i :: below, s.store, emitted, s.out⟩ (run block line.span s)

theorem body_ends {below : List Nat} {run : Text → Span → Engine.State σ → Exit × Engine.State σ}
    (hrun : CallsEnd setting below run) (lines : List Line) (i : Nat) (s : Engine.State σ)
    (emitted : List Text) (hd : setting.script.lines.drop i = lines) :
    Ends setting below ⟨i :: below, s.store, emitted, s.out⟩ (body setting run lines s) := by
  induction lines generalizing i s emitted with
  | nil =>
    have hl : setting.script.lines[i]? = none := by simpa using hd
    refine ⟨below, emitted, rfl, .single ?_⟩
    simp only [Next, step, hl, body]
  | cons line lines ih =>
    have hl : setting.script.lines[i]? = some line := by
      rw [← List.head?_drop, hd, List.head?_cons]
    have hd' : setting.script.lines.drop (i + 1) = lines := by
      rw [← List.tail_drop, hd, List.tail_cons]
    have hstep := step_eq (m := ⟨i :: below, s.store, emitted, s.out⟩) rfl hl
    cases he : effect setting.converter s.store line.command with
    | update store =>
      simp only [he] at hstep
      rw [Engine.body_update lines he]
      exact ends_of_steps (.single hstep) (ih (i + 1) { s with store } emitted hd')
    | print texts =>
      simp only [he] at hstep
      rcases hp : setting.sink.emitAll texts s.out with ⟨out, _ | reason⟩
      · rw [Engine.body_print lines he hp]
        obtain ⟨given, _, hn⟩ :=
          print_eq_next (m := ⟨(i + 1) :: below, s.store, emitted, s.out⟩) hp
        exact ends_of_steps (.single (hstep.trans hn)) (ih (i + 1) { s with out } _ hd')
      · rw [Engine.body_print_failed lines he hp]
        obtain ⟨given, _, hn⟩ :=
          print_eq_stop (m := ⟨(i + 1) :: below, s.store, emitted, s.out⟩) hp
        exact ⟨_, _, _, .refl, hstep.trans hn⟩
    | leave =>
      simp only [he] at hstep
      rw [Engine.body_leave lines he]
      exact ⟨below, emitted, rfl, .single hstep⟩
    | halt =>
      simp only [he] at hstep
      rw [Engine.body_halt lines he]
      exact ⟨_, _, _, .refl, hstep⟩
    | enter block =>
      have hc := hrun i line block s emitted hl he
      rcases hr : run block line.span s with ⟨exit, t⟩
      rw [hr] at hc
      cases exit with
      | returned =>
        obtain ⟨_, emitted', rfl, hc⟩ := hc
        rw [Engine.body_enter_returned lines he hr]
        exact ends_of_steps hc (ih (i + 1) t emitted' hd')
      | halted | failed =>
        rw [Engine.body_enter_stopped lines he hr (by simp)]
        exact hc

theorem unknown_ends {below : List Nat} {i : Nat} {line : Line} {block : Text}
    {s : Engine.State σ} (emitted : List Text) (hl : setting.script.lines[i]? = some line)
    (he : effect setting.converter s.store line.command = .enter block)
    (hb : setting.blocks.line? block = none) :
    Ends setting ((i + 1) :: below) ⟨i :: below, s.store, emitted, s.out⟩ (.returned, s) := by
  have hstep := step_eq (m := ⟨i :: below, s.store, emitted, s.out⟩) rfl hl
  simp only [he, enter, hb] at hstep
  exact ⟨_, emitted, rfl, .single hstep⟩

/-- The room left for calls is what the limit has over the frames below. -/
theorem call_ends (room : Nat) (below : List Nat) (h : setting.limit - below.length = room) :
    CallsEnd setting below (call setting room) := by
  induction room generalizing below with
  | zero =>
    intro i line block s emitted hl he
    cases hb : setting.blocks.line? block with
    | none =>
      rw [Engine.call_unknown setting 0 line.span hb]
      exact unknown_ends emitted hl he hb
    | some position =>
      rw [Engine.call_zero setting line.span hb]
      have hstep := step_eq (m := ⟨i :: below, s.store, emitted, s.out⟩) rfl hl
      have hfull : setting.limit + 1 ≤ below.length + 1 := by omega
      simp only [he, enter, hb, List.length_cons, if_pos hfull] at hstep
      exact ⟨_, _, _, .refl, hstep⟩
  | succ room ih =>
    intro i line block s emitted hl he
    cases hb : setting.blocks.line? block with
    | none =>
      rw [Engine.call_unknown setting (room + 1) line.span hb]
      exact unknown_ends emitted hl he hb
    | some position =>
      rw [Engine.call_succ setting room line.span hb]
      have hstep := step_eq (m := ⟨i :: below, s.store, emitted, s.out⟩) rfl hl
      have hfree : ¬ setting.limit + 1 ≤ below.length + 1 := by omega
      simp only [he, enter, hb, List.length_cons, if_neg hfree] at hstep
      have hcalls := ih ((i + 1) :: below) (by simp only [List.length_cons]; omega)
      exact ends_of_steps (.single hstep) (body_ends hcalls _ (position + 1) s emitted rfl)

theorem frame_ends (setting : Setting σ) (i : Nat) (below : List Nat) (s : Engine.State σ)
    (emitted : List Text) :
    Ends setting below ⟨i :: below, s.store, emitted, s.out⟩
      (body setting (call setting (setting.limit - below.length))
        (setting.script.lines.drop i) s) :=
  body_ends (call_ends _ below rfl) _ i s emitted rfl

/-- Every stack empties frame by frame, unless the machine stops before. -/
theorem exists_stops (setting : Setting σ) (m : State σ) :
    ∃ outcome final, Stops setting m outcome final := by
  obtain ⟨stack, store, emitted, out⟩ := m
  induction stack generalizing store emitted out with
  | nil => exact ⟨.ok .finished, _, _, .refl, rfl⟩
  | cons i below ih =>
    obtain ⟨stack, emitted', he⟩ := frame_ends setting i below ⟨store, out⟩ emitted
    rcases hb : body setting (call setting (setting.limit - below.length))
      (setting.script.lines.drop i) ⟨store, out⟩ with ⟨_ | _ | failure, s⟩ <;>
      simp only [hb] at he
    · obtain ⟨rfl, hsteps⟩ := he
      obtain ⟨outcome, final, hs⟩ := ih s.store emitted' s.out
      exact ⟨outcome, final, stops_of_steps hsteps hs⟩
    · exact ⟨_, _, he⟩
    · exact ⟨_, _, he⟩

theorem not_next_of_stop (h : step setting m = .stop outcome final) : ¬ Next setting m m' := by
  intro hn
  rw [Next, h] at hn
  cases hn

theorem next_unique {u v : State σ} (hu : Next setting m u) (hv : Next setting m v) : u = v := by
  rw [Next, hu] at hv
  cases hv
  rfl

/-- No state begins an endless run. -/
theorem wellFounded_next (setting : Setting σ) : WellFounded fun m' m => Next setting m m' := by
  constructor
  intro m
  obtain ⟨outcome, final, last, hsteps, hstop⟩ := exists_stops setting m
  induction hsteps using Relation.ReflTransGen.head_induction_on with
  | refl => exact ⟨_, fun m' hn => (not_next_of_stop hstop hn).elim⟩
  | head hn _ ih =>
    refine ⟨_, fun m' hn' => ?_⟩
    rw [next_unique hn' hn]
    exact ih

/-- The machine stops in one way only. -/
theorem stops_unique {outcome' : Outcome} {final' : State σ} (h : Stops setting m outcome final)
    (h' : Stops setting m outcome' final') : outcome' = outcome ∧ final' = final := by
  obtain ⟨last, hsteps, hstop⟩ := h
  obtain ⟨last', hsteps', hstop'⟩ := h'
  induction hsteps using Relation.ReflTransGen.head_induction_on with
  | refl =>
    obtain rfl | ⟨u, hn, _⟩ := hsteps'.cases_head
    · rw [hstop] at hstop'
      cases hstop'
      exact ⟨rfl, rfl⟩
    · exact (not_next_of_stop hstop hn).elim
  | head hn _ ih =>
    obtain rfl | ⟨u, hn', hu⟩ := hsteps'.cases_head
    · exact (not_next_of_stop hstop' hn).elim
    · rw [next_unique hn' hn] at hu
      exact ih hu

/-- The entry frame alone gives the outcome, the variables and the output of the run. -/
theorem engine_run_stops (setting : Setting σ) {position : Nat} (out : σ)
    (h : setting.blocks.line? entryBlock = some position) :
    ∃ stack emitted, Stops setting (start position out) (Engine.run setting out).1
      ⟨stack, (Engine.run setting out).2.store, emitted, (Engine.run setting out).2.out⟩ := by
  obtain ⟨stack, emitted, he⟩ := frame_ends setting (position + 1) [] ⟨{}, out⟩ []
  simp only [List.length_nil, Nat.sub_zero] at he
  rw [Engine.run_of_entry setting out h]
  rcases hb : body setting (call setting setting.limit)
    (setting.script.lines.drop (position + 1)) ⟨{}, out⟩ with ⟨_ | _ | failure, s⟩ <;>
    simp only [hb] at he
  · obtain ⟨rfl, hsteps⟩ := he
    exact ⟨[], emitted, _, hsteps, rfl⟩
  · exact ⟨stack, emitted, he⟩
  · exact ⟨stack, emitted, he⟩

/-- No run of the machine is endless, and from the entry block it stops in exactly one way: with the
outcome, the variables and the sink of the session's run. The lines that it emitted account for the
sink, and at no time are there more frames than the limit allows. -/
theorem session_run_refines_machine (session : Session) (sink : Sink σ) (out : σ) :
    (WellFounded fun m' m => Next (session.setting sink) m m') ∧
    ∀ position, (Blocks.ofScript session.script).line? entryBlock = some position →
      ∃ final : State σ,
        (∀ outcome m, Stops (session.setting sink) (start position out) outcome m ↔
          outcome = (session.run sink out).1 ∧ m = final) ∧
        final.out = (session.run sink out).2.1 ∧
        final.store = (session.run sink out).2.2.store ∧
        (sink.emitAll final.emitted out).1 = (session.run sink out).2.1 ∧
        (∀ reason, (sink.emitAll final.emitted out).2 = some reason ↔
          (session.run sink out).1 = .error { cause := .output reason }) ∧
        ∀ m, Steps (session.setting sink) (start position out) m →
          m.stack.length ≤ session.limit + 1 := by
  refine ⟨wellFounded_next _, ?_⟩
  intro position h
  obtain ⟨stack, emitted, hs⟩ := engine_run_stops (session.setting sink) out h
  rw [Session.run_eq]
  refine ⟨⟨stack, _, emitted, _⟩, ?_, rfl, rfl, ?_⟩
  · intro outcome m
    constructor
    · exact stops_unique hs
    · rintro ⟨rfl, rfl⟩
      exact hs
  · obtain ⟨last, hsteps, hstop⟩ := hs
    have hrec : Recorded sink out (start position out) := rfl
    obtain ⟨hout, hreason⟩ := recorded_stop hstop (recorded_steps hsteps hrec)
    refine ⟨hout, hreason, ?_⟩
    intro m hm
    exact stack_length_steps hm (by simp [start])

theorem chant_refines_machine :
    (Blocks.ofScript chant).line? entryBlock = some 0 ∧
      ∃ final, Stops (({ script := chant, limit := 1 } : Session).setting Sink.gather) (start 0 [])
        (.error ⟨.overflow 1, some ⟨18, 29⟩, 0⟩) final ∧
        final.out = ["\n".toList, "hey".toList, "\n".toList, "hey".toList] := by
  have h : (Blocks.ofScript chant).line? entryBlock = some 0 := by decide
  obtain ⟨final, hstops, hout, _⟩ :=
    (session_run_refines_machine { script := chant, limit := 1 } Sink.gather []).2 0 h
  exact ⟨h, final, (hstops _ final).2 ⟨rfl, rfl⟩, hout⟩

end LineScript.Machine
