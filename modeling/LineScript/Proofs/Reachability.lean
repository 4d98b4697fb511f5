import LineScript.Proofs.Lockstep

/-!
The lines that a run may come to, read off the script. Frames go on through later labels, so what a
block can run is not confined to it. Main statement: the other lines have no say in a run, apart from
the labels that they bear.
-/

namespace LineScript

namespace Script

/-- The line of that number may be run: it is the first of the entry block, it comes after one that
may be run and does not end its frame, or it is the first of a block that one may call. -/
inductive Reaches (script : Script) : Nat → Prop
  | entry {position : Nat} :
      (Blocks.ofScript script).line? entryBlock = some position →
      position + 1 < script.lines.length → Reaches script (position + 1)
  | next {i : Nat} {line : Line} :
      Reaches script i → script.lines[i]? = some line → line.GoesOn →
      i + 1 < script.lines.length → Reaches script (i + 1)
  | call {i position : Nat} {line : Line} {block : Text} :
      Reaches script i → script.lines[i]? = some line → line.MayCall block →
      (Blocks.ofScript script).line? block = some position →
      position + 1 < script.lines.length → Reaches script (position + 1)

/-- A block in which a run begins or which a line that may be run may call. -/
def MayEnter (script : Script) (block : Text) : Prop :=
  block = entryBlock ∨
    ∃ i line, script.Reaches i ∧ script.lines[i]? = some line ∧ line.MayCall block

/-- Another script is the same wherever the first one may be run. -/
structure AgreesWhereReached (script script' : Script) : Prop where
  sourceId : script'.sourceId = script.sourceId
  /-- The same number of lines, with the same labels on them. -/
  labels : script'.lines.map Line.label? = script.lines.map Line.label?
  lines : ∀ i, script.Reaches i → script'.lines[i]? = script.lines[i]?

namespace AgreesWhereReached

variable {script script' : Script}

theorem length_eq (h : script.AgreesWhereReached script') :
    script'.lines.length = script.lines.length := by
  simpa using congrArg List.length h.labels

theorem blocks_eq (h : script.AgreesWhereReached script') :
    Blocks.ofScript script' = Blocks.ofScript script :=
  Blocks.registerLines_congr 0 h.labels

end AgreesWhereReached

theorem MayEnter.reaches {script : Script} {block : Text} {position : Nat}
    (h : script.MayEnter block) (hb : (Blocks.ofScript script).line? block = some position)
    (hp : position + 1 < script.lines.length) : script.Reaches (position + 1) := by
  rcases h with rfl | ⟨i, line, hi, hl, hm⟩
  · exact .entry hb hp
  · exact .call hi hl hm hb hp

end Script

namespace Engine

variable {σ : Type}

/-- From a line that may be run, two such scripts agree up to the end of the frame. -/
theorem framesAlike_drop {left right : Setting σ} {alike : State σ → State σ → Prop}
    {calls : Text → Text → Prop} {script script' : Script}
    (h : script.AgreesWhereReached script')
    (hline : ∀ i line, script.Reaches i → script.lines[i]? = some line →
      LinesAlike left right alike calls line line)
    (i : Nat) (hi : i < script.lines.length → script.Reaches i) :
    FramesAlike left right alike calls (script.lines.drop i) (script'.lines.drop i) := by
  generalize hn : script.lines.length - i = n
  induction n generalizing i with
  | zero =>
    have hlength := h.length_eq
    rw [List.drop_of_length_le (by omega), List.drop_of_length_le (by omega)]
    exact .nil
  | succ n ih =>
    have hlt : i < script.lines.length := by omega
    have hreach := hi hlt
    obtain ⟨line, hl⟩ : ∃ line, script.lines[i]? = some line := ⟨_, List.getElem?_eq_getElem hlt⟩
    have hl' := (h.lines i hreach).trans hl
    obtain ⟨_, hget⟩ := List.getElem?_eq_some_iff.1 hl
    obtain ⟨hlt', hget'⟩ := List.getElem?_eq_some_iff.1 hl'
    rw [List.drop_eq_getElem_cons hlt, List.drop_eq_getElem_cons hlt', hget, hget']
    refine .cons (hline i line hreach hl) ?_
    intro hgo
    exact ih (i + 1) (fun hnext => .next hreach hl hgo hnext) (by omega)

/-- A script and one that agrees with it where it may be run keep in step, on equal states. -/
def reachCoupling (session : Session) (sink : Sink σ) {script' : Script}
    (h : session.script.AgreesWhereReached script') :
    Coupling (session.setting sink)
      (({ session with script := script' } : Session).setting sink) where
  alike s s' := s' = s
  calls block block' := block' = block ∧ session.script.MayEnter block
  limit := rfl
  sourceId := h.sourceId
  entry := ⟨rfl, .inl rfl⟩
  frames := by
    rintro _ block ⟨rfl, henter⟩
    cases hb : (Blocks.ofScript session.script).line? block with
    | none =>
      rw [frame?_eq_none.2 hb, frame?_eq_none.2 (by simpa only [Session.setting, h.blocks_eq])]
      exact .none
    | some position =>
      rw [frame?_eq_some.2 ⟨position, hb, rfl⟩,
        frame?_eq_some.2 ⟨position, by simpa only [Session.setting, h.blocks_eq], rfl⟩]
      refine .some (framesAlike_drop h ?_ (position + 1) fun hp => henter.reaches hb hp)
      intro i line hi hl
      refine linesAlike_self (by rfl) (by rfl) line ?_
      intro callee hm
      exact ⟨rfl, .inr ⟨i, line, hi, hl, hm⟩⟩

end Engine

/-- A run has the same outcome, output and variables on every script that has the same labels and is
the same at the lines that may be run. -/
theorem run_depends_on_reach {σ : Type} (session : Session) (sink : Sink σ) (out : σ)
    (script' : Script) (h : session.script.AgreesWhereReached script') :
    let other : Session := { session with script := script' }
    (other.run sink out).1 = (session.run sink out).1 ∧
      (other.run sink out).2.1 = (session.run sink out).2.1 ∧
      (other.run sink out).2.2.store = (session.run sink out).2.2.store := by
  intro other
  exact (Engine.reachCoupling session sink h).session_run_eq (fun _ _ => Iff.rfl) out

/-- The chant with a return and one more line, which no run comes to. -/
def chantThen (last : Option Command) : Script :=
  { chant with
    lines := chant.lines ++ [⟨"::end".toList, ⟨30, 35⟩, some .leave⟩, ⟨[], ⟨36, 36⟩, last⟩] }

theorem chantThen_reaches {i : Nat} (h : (chantThen none).Reaches i) : i = 1 ∨ i = 2 ∨ i = 3 := by
  have hentry : (Blocks.ofScript (chantThen none)).line? entryBlock = some 0 := by decide
  induction h with
  | entry hb _ =>
    rw [hentry] at hb
    cases hb
    simp
  | next _ hl hgo _ ih =>
    rcases ih with rfl | rfl | rfl
    · simp
    · simp
    · cases hl
      exact (hgo.1 rfl).elim
  | call _ hl hm hb _ ih =>
    obtain ⟨command, hc, hm⟩ := hm
    rcases ih with rfl | rfl | rfl <;> cases hl <;> cases hc
    · exact hm.elim
    · cases hm
      rw [hentry] at hb
      cases hb
      simp
    · exact hm.elim

theorem chantThen_runs_alike :
    (chantThen none).AgreesWhereReached (chantThen (some .halt)) ∧
      (({ script := chantThen (some .halt), limit := 1 } : Session).run Sink.gather []).1
        = (({ script := chantThen none, limit := 1 } : Session).run Sink.gather []).1 := by
  have h : (chantThen none).AgreesWhereReached (chantThen (some .halt)) := by
    refine ⟨rfl, rfl, ?_⟩
    intro i hi
    rcases chantThen_reaches hi with rfl | rfl | rfl <;> rfl
  exact ⟨h, (run_depends_on_reach { script := chantThen none, limit := 1 } Sink.gather []
    (chantThen (some .halt)) h).1⟩

end LineScript
