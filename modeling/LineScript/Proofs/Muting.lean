import LineScript.Proofs.Device
import LineScript.Proofs.Lockstep

/-!
Runs that print something else, or nothing. Main statement: on a sink that never fails, neither the
converter nor the lines that print have any influence on the outcome and the variables.
-/

namespace LineScript

/-- Does nothing but print. -/
def Command.prints : Command → Bool
  | .identify _ | .convert _ | .say _ => true
  | _ => false

def Line.prints (line : Line) : Bool := line.command.any Command.prints

/-- The line made a comment if it prints. -/
def Line.mute (line : Line) : Line := if line.prints then { line with command := none } else line

/-- The script with comments in place of the lines that print and have one of some numbers. -/
def Script.mute (script : Script) (muted : Nat → Bool) : Script :=
  { script with lines := script.lines.mapIdx fun i line => if muted i then line.mute else line }

/-- The second line is the first, or the first made a comment. -/
def Line.Muted (line line' : Line) : Prop := line' = line ∨ line' = line.mute

theorem Line.mute_of_prints {line : Line} (h : line.prints = true) :
    line.mute = { line with command := none } := by
  simp [Line.mute, h]

theorem Line.mute_of_not_prints {line : Line} (h : line.prints = false) : line.mute = line := by
  simp [Line.mute, h]

theorem Line.prints_mute (line : Line) : line.mute.prints = false := by
  cases h : line.prints with
  | true =>
    rw [Line.mute_of_prints h]
    rfl
  | false => rw [Line.mute_of_not_prints h, h]

theorem Line.label?_of_prints {line : Line} (h : line.prints = true) : line.label? = none := by
  cases hl : line.label? with
  | none => rfl
  | some name =>
    rw [Line.prints, Line.label?_eq_some.1 hl] at h
    cases h

theorem Line.Muted.label? {line line' : Line} (h : line.Muted line') :
    line'.label? = line.label? := by
  rcases h with rfl | rfl
  · rfl
  · cases hp : line.prints with
    | true =>
      rw [Line.mute_of_prints hp, Line.label?_of_prints hp]
      rfl
    | false => rw [Line.mute_of_not_prints hp]

theorem Script.forall₂_mute (script : Script) (muted : Nat → Bool) :
    List.Forall₂ Line.Muted script.lines (script.mute muted).lines := by
  refine List.forall₂_iff_get.2 ⟨by simp [Script.mute], ?_⟩
  intro i hi hi'
  simp only [Script.mute, List.get_eq_getElem, List.getElem_mapIdx]
  split
  · exact .inr rfl
  · exact .inl rfl

namespace Engine

variable {σ : Type} {line line' : Line}

/-- A line that does not print reads and changes the variables alone: the converter, the sink and the
limit are nothing to it. -/
theorem exists_act_of_not_prints (h : line.prints = false) (store : Store) :
    ∃ action after, ∀ (τ : Type) (setting : Setting τ) (out : τ),
      act setting line.command ⟨store, out⟩ = (action, ⟨after, out⟩) := by
  rw [Line.prints] at h
  cases hc : line.command with
  | none => exact ⟨_, _, fun _ _ _ => rfl⟩
  | some command =>
    rw [hc] at h
    cases command with
    | branch b =>
      simp only [act]
      cases b.target store with
      | none => exact ⟨_, _, fun _ _ _ => rfl⟩
      | some block => exact ⟨_, _, fun _ _ _ => rfl⟩
    | assign target value => exact ⟨.proceed, store.assign target value, fun _ _ _ => rfl⟩
    | copy target source =>
      exact ⟨.proceed, (store.copy? source target).getD store, fun _ _ _ => rfl⟩
    | halt | label | leave | call => exact ⟨_, _, fun _ _ _ => rfl⟩
    | identify | convert | say => cases h

theorem exists_effect_of_prints (h : line.prints = true) (converter : Converter) (store : Store) :
    ∃ texts, effect converter store line.command = .print texts := by
  rw [Line.prints] at h
  cases hc : line.command with
  | none =>
    rw [hc] at h
    cases h
  | some command =>
    rw [hc] at h
    cases command with
    | identify | convert | say => exact ⟨_, rfl⟩
    | halt | label | leave | call | assign | copy | branch => cases h

theorem exists_act_of_prints {setting : Setting σ} {s : State σ} (h : line.prints = true)
    (hs : setting.sink.NeverFails s.out) :
    ∃ out, act setting line.command s = (.proceed, ⟨s.store, out⟩) ∧
      setting.sink.NeverFails out := by
  obtain ⟨texts, he⟩ := exists_effect_of_prints h setting.converter s.store
  have hout := hs.emitAll_eq texts
  refine ⟨(setting.sink.emitAll texts s.out).1, ?_, hs.after hout⟩
  rw [act_eq_perform, he, perform, hout]

/-- The same variables, and sinks that will not fail. -/
def SameStore (sink : Sink σ) (s s' : State σ) : Prop :=
  s'.store = s.store ∧ sink.NeverFails s.out ∧ sink.NeverFails s'.out

theorem linesAlike_of_not_prints (left right : Setting σ) (sink : Sink σ)
    (h : line.prints = false) :
    LinesAlike left right (SameStore sink) (fun block block' => block' = block) line line := by
  refine ⟨rfl, ?_⟩
  rintro ⟨_, out⟩ ⟨store, out'⟩ ⟨rfl, hout, hout'⟩
  obtain ⟨action, after, hact⟩ := exists_act_of_not_prints h store
  rw [hact, hact]
  exact ⟨Action.alike_self _ fun _ _ => rfl, rfl, hout, hout'⟩

theorem linesAlike_of_muted {left right : Setting σ} (hs : right.sink = left.sink)
    (h : line.Muted line') :
    LinesAlike left right (SameStore left.sink) (fun block block' => block' = block) line line' := by
  cases hp : line.prints with
  | false =>
    have hline : line' = line := by
      rcases h with h | h
      · exact h
      · rw [h, Line.mute_of_not_prints hp]
    rw [hline]
    exact linesAlike_of_not_prints left right left.sink hp
  | true =>
    -- Both lines let the frame proceed, whether the second one prints or not.
    rcases h with rfl | rfl
    · refine ⟨rfl, ?_⟩
      rintro s s' ⟨hstore, hout, hout'⟩
      obtain ⟨mid, hact, hmid⟩ := exists_act_of_prints hp hout
      rw [← hs] at hout'
      obtain ⟨mid', hact', hmid'⟩ := exists_act_of_prints hp hout'
      rw [hs] at hmid'
      rw [hact, hact']
      exact ⟨.proceed, hstore, hmid, hmid'⟩
    · rw [Line.mute_of_prints hp]
      refine ⟨rfl, ?_⟩
      rintro s s' ⟨hstore, hout, hout'⟩
      obtain ⟨mid, hact, hmid⟩ := exists_act_of_prints hp hout
      rw [hact]
      exact ⟨.proceed, hstore, hmid, hout'⟩

/-- Two sessions that differ in what they print keep in step, on equal variables. -/
def mutingCoupling {session session' : Session} (sink : Sink σ)
    (hlimit : session'.limit = session.limit)
    (hid : session'.script.sourceId = session.script.sourceId)
    (hlines : List.Forall₂ Line.Muted session.script.lines session'.script.lines) :
    Coupling (session.setting sink) (session'.setting sink) where
  alike := SameStore sink
  calls block block' := block' = block
  limit := hlimit
  sourceId := hid
  entry := rfl
  frames := by
    rintro _ block rfl
    rw [frame?_setting, frame?_setting]
    apply blocksAlike_of_forall₂ ?_ (fun line line' h => linesAlike_of_muted (by rfl) h) hlines
    intro line line' h
    rw [h.label?]

theorem run_muted (session session' : Session) {sink : Sink σ} {out : σ}
    (hs : sink.NeverFails out) (hlimit : session'.limit = session.limit)
    (hid : session'.script.sourceId = session.script.sourceId)
    (hlines : List.Forall₂ Line.Muted session.script.lines session'.script.lines) :
    (session'.run sink out).1 = (session.run sink out).1 ∧
      (session'.run sink out).2.2.store = (session.run sink out).2.2.store := by
  obtain ⟨houtcome, hstore, _⟩ := (mutingCoupling sink hlimit hid hlines).session_run_alike
    (show SameStore sink ⟨{}, out⟩ ⟨{}, out⟩ from ⟨rfl, hs, hs⟩)
  exact ⟨houtcome, hstore⟩

/-- Without lines that print, a run does not touch the sink. -/
theorem run_out_of_not_prints {setting : Setting σ} (out : σ)
    (h : ∀ line ∈ setting.script.lines, line.prints = false) :
    (run setting out).2.out = out := by
  apply run_invariant (fun s => s.out = out) ?_ rfl
  rintro line hline ⟨store, _⟩ rfl
  obtain ⟨action, after, hact⟩ := exists_act_of_not_prints (h line hline) store
  rw [hact]

end Engine

/-- On a sink that never fails, another converter or comments in place of lines that print leave the
outcome and the variables as they are; with no line that prints, nothing is written at all. -/
theorem printing_has_no_influence {σ : Type} (session : Session) (sink : Sink σ) (out : σ)
    (hs : sink.NeverFails out) :
    let plain := session.run sink out
    (∀ converter : Converter,
      let other := ({ session with converter } : Session).run sink out
      other.1 = plain.1 ∧ other.2.2.store = plain.2.2.store) ∧
    (∀ muted : Nat → Bool,
      let quiet := ({ session with script := session.script.mute muted } : Session).run sink out
      quiet.1 = plain.1 ∧ quiet.2.2.store = plain.2.2.store) ∧
    (({ session with script := session.script.mute fun _ => true } : Session).run sink out).2.1
      = out := by
  refine ⟨?_, ?_, ?_⟩
  · intro converter
    have hsame : List.Forall₂ Line.Muted session.script.lines session.script.lines :=
      List.forall₂_same.2 fun _ _ => .inl rfl
    exact Engine.run_muted session { session with converter } hs rfl rfl hsame
  · intro muted
    exact Engine.run_muted session { session with script := session.script.mute muted } hs rfl rfl
      (session.script.forall₂_mute muted)
  · apply Engine.run_out_of_not_prints
    intro line hline
    obtain ⟨i, hi, rfl⟩ := List.mem_mapIdx.1 hline
    exact Line.prints_mute _

theorem chant_muted :
    Device.sink.NeverFails {} ∧
      (({ script := chant.mute fun _ => true, limit := 1 } : Session).run Device.sink {}).1
        = .error ⟨.overflow 1, some ⟨18, 29⟩, 0⟩ ∧
      (({ script := chant.mute fun _ => true, limit := 1 } : Session).run Device.sink {}).2.1
        = {} := by
  have hs : Device.sink.NeverFails {} := Device.neverFails_unlimited rfl rfl
  obtain ⟨_, hmuted, hout⟩ :=
    printing_has_no_influence { script := chant, limit := 1 } Device.sink {} hs
  exact ⟨hs, (hmuted fun _ => true).1, hout⟩

end LineScript
