import LineScript.Proofs.Effect

/-!
The calls that a script can make, read off its lines. Main statement: behind every overflow there is
a chain of such calls from the entry block, one longer than the limit, so that a script without such
a chain never overflows.
-/

namespace LineScript

/-- Names the block as one to call, under whatever condition. -/
def Command.MayCall (block : Text) : Command → Prop
  | .call name => name = block
  | .branch b => b.whenTrue = block ∨ b.whenFalse = some block
  | _ => False

def Line.MayCall (block : Text) (line : Line) : Prop :=
  ∃ command, line.command = some command ∧ command.MayCall block

/-- Does not end the frame that runs it. -/
def Line.GoesOn (line : Line) : Prop :=
  line.command ≠ some .leave ∧ line.command ≠ some .halt

/-- A line of a script may call a block on behalf of another: it comes after the label of the
caller, and no line between the two ends a frame. -/
structure StaticCall (script : Script) (caller : Text) (i : Nat) (callee : Text) : Prop where
  callee_known : ((Blocks.ofScript script).line? callee).isSome
  may_call : ∃ line, script.lines[i]? = some line ∧ line.MayCall callee
  reached : ∃ position, (Blocks.ofScript script).line? caller = some position ∧ position < i ∧
    ∀ j, position < j → j < i → ∀ line, script.lines[j]? = some line → line.GoesOn

/-- As many calls as the number says, each made by the block that the one before it calls. -/
def CallChain (script : Script) (calls : Nat) (block : Nat → Text) (line : Nat → Nat) : Prop :=
  ∀ k < calls, StaticCall script (block k) (line k) (block (k + 1))

theorem callChain_cons {script : Script} {calls i : Nat} {caller : Text} {block : Nat → Text}
    {line : Nat → Nat} (hc : StaticCall script caller i (block 0))
    (h : CallChain script calls block line) :
    CallChain script (calls + 1) (fun k => k.casesOn caller block)
      (fun k => k.casesOn i line) := by
  intro k hk
  cases k with
  | zero => exact hc
  | succ k => exact h k (by omega)

namespace Engine

variable {σ : Type} {converter : Converter} {store : Store} {line : Line} {block : Text}
  {lines : List Line} {failure : Failure} {run : Text → Span → State σ → Exit × State σ}

theorem mayCall_of_effect (h : effect converter store line.command = .enter block) :
    line.MayCall block := by
  cases hc : line.command with
  | none =>
    rw [hc] at h
    cases h
  | some command =>
    rw [hc] at h
    refine ⟨command, hc, ?_⟩
    cases command with
    | call name =>
      cases h
      exact rfl
    | branch b =>
      simp only [effect, Branch.target] at h
      split at h
      · cases h
        exact .inl rfl
      · cases hf : b.whenFalse with
        | none =>
          rw [hf] at h
          cases h
        | some name =>
          rw [hf] at h
          cases h
          exact .inr hf
    | halt | label | leave | assign | copy | identify | convert | say => cases h

theorem goesOn_of_effect {e : Effect} (he : effect converter store line.command = e)
    (hleave : e ≠ .leave) (hhalt : e ≠ .halt) : line.GoesOn := by
  refine ⟨?_, ?_⟩
  · intro hc
    rw [hc] at he
    exact hleave he.symm
  · intro hc
    rw [hc] at he
    exact hhalt he.symm

/-- One of the lines calls a block, the call fails so, and no line before it ends the frame. -/
def CallFails (run : Text → Span → State σ → Exit × State σ) (lines : List Line)
    (failure : Failure) : Prop :=
  ∃ (j : Nat) (line : Line) (block : Text) (s : State σ), lines[j]? = some line ∧
    line.MayCall block ∧ (∀ k < j, ∀ before, lines[k]? = some before → before.GoesOn) ∧
    (run block line.span s).1 = .failed failure

theorem callFails_cons (hline : line.GoesOn) (h : CallFails run lines failure) :
    CallFails run (line :: lines) failure := by
  obtain ⟨j, l, block, s, hl, hm, hbefore, hr⟩ := h
  refine ⟨j + 1, l, block, s, hl, hm, ?_, hr⟩
  intro k hk before hb
  cases k with
  | zero =>
    cases hb
    exact hline
  | succ k => exact hbefore k (by omega) before hb

/-- A failure that is not one of the output comes out of a call. -/
theorem callFails_of_failed {setting : Setting σ} (hc : ∀ reason, failure.cause ≠ .output reason)
    (lines : List Line) (s : State σ) (h : (body setting run lines s).1 = .failed failure) :
    CallFails run lines failure := by
  induction lines generalizing s with
  | nil => cases h
  | cons line lines ih =>
    cases he : effect setting.converter s.store line.command with
    | update store =>
      rw [body_update lines he] at h
      exact callFails_cons (goesOn_of_effect he (by simp) (by simp)) (ih _ h)
    | print texts =>
      rcases hp : setting.sink.emitAll texts s.out with ⟨out, _ | reason⟩
      · rw [body_print lines he hp] at h
        exact callFails_cons (goesOn_of_effect he (by simp) (by simp)) (ih _ h)
      · rw [body_print_failed lines he hp] at h
        cases h
        exact (hc reason rfl).elim
    | leave =>
      rw [body_leave lines he] at h
      cases h
    | halt =>
      rw [body_halt lines he] at h
      cases h
    | enter block =>
      rcases hr : run block line.span s with ⟨exit, t⟩
      by_cases hexit : exit = .returned
      · subst hexit
        rw [body_enter_returned lines he hr] at h
        exact callFails_cons (goesOn_of_effect he (by simp) (by simp)) (ih _ h)
      · rw [body_enter_stopped lines he hr hexit] at h
        refine ⟨0, line, block, s, rfl, mayCall_of_effect he, by simp, ?_⟩
        rw [hr]
        exact h

theorem staticCall_of_drop {script : Script} {position j : Nat} {caller callee : Text}
    (hb : (Blocks.ofScript script).line? caller = some position)
    (hk : ((Blocks.ofScript script).line? callee).isSome)
    (hl : (script.lines.drop (position + 1))[j]? = some line) (hm : line.MayCall callee)
    (hbefore : ∀ k < j, ∀ before, (script.lines.drop (position + 1))[k]? = some before →
      before.GoesOn) :
    StaticCall script caller (position + 1 + j) callee := by
  refine ⟨hk, ⟨line, by rw [← List.getElem?_drop]; exact hl, hm⟩, position, hb, by omega, ?_⟩
  intro k hlow hhigh before hline
  apply hbefore (k - (position + 1)) (by omega) before
  rw [List.getElem?_drop, Nat.add_sub_cancel' (by omega)]
  exact hline

/-- The frame of a block that overflows with room for `room` calls stands at the head of a chain of
one call more, and the last line of the chain is to blame. -/
theorem exists_callChain_of_failed (session : Session) (sink : Sink σ)
    (hc : ∀ reason, failure.cause ≠ .output reason) {room position : Nat} {block : Text}
    {s : State σ} (hb : (Blocks.ofScript session.script).line? block = some position)
    (h : (body (session.setting sink) (call (session.setting sink) room)
      (session.script.lines.drop (position + 1)) s).1 = .failed failure) :
    ∃ blocks numbers, blocks 0 = block ∧ CallChain session.script (room + 1) blocks numbers ∧
      ∃ line, session.script.lines[numbers room]? = some line ∧
        failure = overflow (session.setting sink) line.span := by
  induction room generalizing block position s with
  | zero =>
    obtain ⟨j, line, callee, t, hl, hm, hbefore, hr⟩ := callFails_of_failed hc _ s h
    cases hk : (Blocks.ofScript session.script).line? callee with
    | none =>
      rw [call_unknown (session.setting sink) 0 line.span hk] at hr
      cases hr
    | some target =>
      rw [call_zero (session.setting sink) line.span hk] at hr
      cases hr
      have hcall := staticCall_of_drop hb (by simp [hk]) hl hm hbefore
      refine ⟨fun k => k.casesOn block fun _ => callee, fun _ => position + 1 + j, rfl, ?_, line,
        ?_, rfl⟩
      · intro k hk
        obtain rfl : k = 0 := by omega
        exact hcall
      · rw [← List.getElem?_drop]
        exact hl
  | succ room ih =>
    obtain ⟨j, line, callee, t, hl, hm, hbefore, hr⟩ := callFails_of_failed hc _ s h
    cases hk : (Blocks.ofScript session.script).line? callee with
    | none =>
      rw [call_unknown (session.setting sink) (room + 1) line.span hk] at hr
      cases hr
    | some target =>
      rw [call_succ (session.setting sink) room line.span hk] at hr
      obtain ⟨blocks, numbers, rfl, hchain, hlast⟩ := ih hk hr
      have hcall := staticCall_of_drop hb (by simp [hk]) hl hm hbefore
      exact ⟨_, _, rfl, callChain_cons hcall hchain, hlast⟩

theorem exists_callChain_of_overflow (session : Session) (sink : Sink σ) {out : σ} {limit : Nat}
    (h : (Engine.run (session.setting sink) out).1 = .error failure)
    (hcause : failure.cause = .overflow limit) :
    ∃ blocks numbers, blocks 0 = entryBlock ∧
      CallChain session.script (session.limit + 1) blocks numbers ∧
      ∃ line, session.script.lines[numbers session.limit]? = some line ∧
        failure = overflow (session.setting sink) line.span := by
  cases hb : (Blocks.ofScript session.script).line? entryBlock with
  | none =>
    rw [run_of_no_entry (session.setting sink) out hb] at h
    cases h
    cases hcause
  | some position =>
    rw [run_of_entry (session.setting sink) out hb] at h
    exact exists_callChain_of_failed session sink (by simp [hcause]) hb
      (eq_failed_of_outcomeOf h)

end Engine

/-- An overflow names the limit and the script, and its span is that of the last line of a chain of
calls from the entry block with one call more than the limit. So a script whose chains all keep to
the limit never overflows. -/
theorem overflow_has_callChain {σ : Type} (session : Session) (sink : Sink σ) (out : σ) :
    (∀ failure limit, (session.run sink out).1 = .error failure →
      failure.cause = .overflow limit →
      limit = session.limit ∧ failure.sourceId = session.script.sourceId ∧
      ∃ blocks numbers, blocks 0 = entryBlock ∧
        CallChain session.script (session.limit + 1) blocks numbers ∧
        ∃ line, session.script.lines[numbers session.limit]? = some line ∧
          failure.span = some line.span) ∧
    ((∀ calls blocks numbers, blocks 0 = entryBlock →
        CallChain session.script calls blocks numbers → calls ≤ session.limit) →
      ¬ Overflowed (session.run sink out).1) := by
  refine ⟨?_, ?_⟩
  · intro failure limit hr hcause
    obtain ⟨blocks, numbers, hentry, hchain, line, hline, rfl⟩ :=
      Engine.exists_callChain_of_overflow session sink hr hcause
    cases hcause
    exact ⟨rfl, rfl, blocks, numbers, hentry, hchain, line, hline, rfl⟩
  · rintro hchains ⟨failure, limit, hr, hcause⟩
    obtain ⟨blocks, numbers, hentry, hchain, _⟩ :=
      Engine.exists_callChain_of_overflow session sink hr hcause
    have hle := hchains (session.limit + 1) blocks numbers hentry hchain
    omega

/-- The chant has a chain of two calls to exceed a limit of one; without its last line it makes no
call. -/
theorem chant_callChain :
    (∃ blocks numbers, blocks 0 = entryBlock ∧ CallChain chant 2 blocks numbers) ∧
      ¬ Overflowed (({ script := { chant with lines := chant.lines.take 2 }, limit := 0 } :
        Session).run Sink.gather []).1 := by
  refine ⟨?_, ?_⟩
  · obtain ⟨_, _, blocks, numbers, hentry, hchain, _⟩ :=
      (overflow_has_callChain { script := chant, limit := 1 } Sink.gather []).1
        ⟨.overflow 1, some ⟨18, 29⟩, 0⟩ 1 rfl rfl
    exact ⟨blocks, numbers, hentry, hchain⟩
  · apply (overflow_has_callChain _ Sink.gather []).2
    intro calls blocks numbers _ hchain
    apply Nat.le_of_not_lt
    intro hcalls
    obtain ⟨line, hl, command, hc, hm⟩ := (hchain 0 hcalls).may_call
    rcases hn : numbers 0 with _ | _ | n <;> rw [hn] at hl <;> cases hl <;> cases hc <;> exact hm

end LineScript
