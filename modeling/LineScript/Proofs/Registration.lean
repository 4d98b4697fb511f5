import LineScript.Proofs.CallChain
import LineScript.Proofs.Discovery
import LineScript.Shell.Response
import Mathlib.Data.List.Basic
import Mathlib.Data.List.Induction

/-!
The registry of blocks after any calls. Main statement: its list and its index agree, a name leads
to the first call with it, and so all that ask a script for its blocks find them at their first
labels.
-/

namespace LineScript

namespace Blocks

variable {b : Blocks} {calls : List (Text × Nat)} {name : Text} {number i line : Nat}

/-- The registry after some calls, each of which gives a name and a line. -/
def registerAll (calls : List (Text × Nat)) : Blocks :=
  calls.foldl (fun b call => b.register call.1 call.2) {}

/-- The registry holds what the calls asked for: each name once, in the order of the first calls,
and with the line of the first call. -/
structure Records (calls : List (Text × Nat)) (b : Blocks) : Prop where
  consistent : b.Consistent
  mem_iff : ∀ name, name ∈ b.entries.map Block.name ↔ name ∈ calls.map Prod.fst
  in_order : (b.entries.map Block.name).Pairwise fun name later =>
    (calls.map Prod.fst).idxOf name < (calls.map Prod.fst).idxOf later
  line?_eq : ∀ name, b.line? name = (calls.find? fun call => call.1 = name).map Prod.snd

theorem Consistent.get?_iff (hb : b.Consistent) :
    b.index.get? name = some i ↔ b.entries[i]?.map Block.name = some name := by
  rw [hb name i, Option.map_eq_some_iff]
  constructor
  · rintro ⟨line, he⟩
    exact ⟨⟨name, line⟩, he, rfl⟩
  · rintro ⟨⟨_, line⟩, he, rfl⟩
    exact ⟨line, he⟩

theorem Consistent.isKnown_iff (hb : b.Consistent) :
    b.isKnown name = true ↔ name ∈ b.entries.map Block.name := by
  rw [isKnown, Option.isSome_iff_exists, List.mem_iff_getElem?]
  refine exists_congr fun i => ?_
  rw [hb.get?_iff, List.getElem?_map]

/-- An entry is what its name leads to. -/
theorem Consistent.mem_entries_iff (hb : b.Consistent) :
    ⟨name, line⟩ ∈ b.entries ↔ b.line? name = some line := by
  constructor
  · intro h
    obtain ⟨i, hi⟩ := List.mem_iff_getElem?.1 h
    exact line?_of_get? ((hb name i).2 ⟨line, hi⟩) hi
  · intro h
    obtain ⟨e, he, rfl⟩ := Option.map_eq_some_iff.1 h
    obtain ⟨i, hi, he⟩ := Option.bind_eq_some_iff.1 he
    obtain ⟨line, hentry⟩ := (hb name i).1 hi
    rw [hentry] at he
    cases he
    exact List.mem_of_getElem? hentry

theorem records_empty : Records [] {} where
  consistent := consistent_empty
  mem_iff := by simp
  in_order := .nil
  line?_eq := by simp [line?, Table.get?]

theorem Records.isKnown_iff (h : Records calls b) :
    b.isKnown name = true ↔ name ∈ calls.map Prod.fst :=
  h.consistent.isKnown_iff.trans (h.mem_iff name)

theorem names_register (line : Nat) (hk : b.isKnown name = false) :
    (b.register name line).entries.map Block.name = b.entries.map Block.name ++ [name] := by
  rw [register_unknown line hk]
  exact List.map_append

/-- What a call adds is recorded behind all that was recorded before. -/
theorem records_register (h : Records calls b) (name : Text) (line : Nat) :
    Records (calls ++ [(name, line)]) (b.register name line) where
  consistent := consistent_register line h.consistent
  mem_iff := by
    intro key
    cases hk : b.isKnown name with
    | true =>
      have hname := h.isKnown_iff.1 hk
      rw [register_known line hk, h.mem_iff, List.map_append, List.mem_append]
      constructor
      · exact .inl
      · rintro (hkey | hkey)
        · exact hkey
        · rwa [List.mem_singleton.1 hkey]
    | false =>
      rw [names_register line hk, List.mem_append, h.mem_iff, List.map_append, List.mem_append]
      rfl
  in_order := by
    have hearlier (key : Text) (hkey : key ∈ b.entries.map Block.name) :
        ((calls ++ [(name, line)]).map Prod.fst).idxOf key = (calls.map Prod.fst).idxOf key := by
      rw [List.map_append, List.idxOf_append_of_mem ((h.mem_iff key).1 hkey)]
    have hkept : (b.entries.map Block.name).Pairwise fun key later =>
        ((calls ++ [(name, line)]).map Prod.fst).idxOf key
          < ((calls ++ [(name, line)]).map Prod.fst).idxOf later := by
      refine h.in_order.imp_of_mem ?_
      intro key later hkey hlater hlt
      rwa [hearlier key hkey, hearlier later hlater]
    cases hk : b.isKnown name with
    | true => rwa [register_known line hk]
    | false =>
      have hnew : name ∉ calls.map Prod.fst := by
        rw [← h.isKnown_iff, hk]
        exact Bool.false_ne_true
      rw [names_register line hk, List.pairwise_append]
      refine ⟨hkept, List.pairwise_singleton _ _, ?_⟩
      -- A new name is first called after all the calls before.
      intro key hkey later hlater
      have hlt := List.idxOf_lt_length_of_mem ((h.mem_iff key).1 hkey)
      rw [List.mem_singleton.1 hlater, hearlier key hkey, List.map_append,
        List.idxOf_append_of_notMem hnew]
      omega
  line?_eq := by
    intro key
    rw [line?_register key line h.consistent, h.line?_eq, List.find?_append, Option.map_or]
    by_cases hkey : key = name
    · simp [hkey]
    · have hne : ¬ name = key := fun he => hkey he.symm
      simp [hkey, hne]

theorem registerAll_append (calls : List (Text × Nat)) (name : Text) (line : Nat) :
    registerAll (calls ++ [(name, line)]) = (registerAll calls).register name line := by
  rw [registerAll, List.foldl_append]
  rfl

theorem records_registerAll (calls : List (Text × Nat)) : Records calls (registerAll calls) := by
  induction calls using List.reverseRecOn with
  | nil => exact records_empty
  | append_singleton calls call ih =>
    obtain ⟨name, line⟩ := call
    rw [registerAll_append]
    exact records_register ih name line

theorem Records.nodup (h : Records calls b) : (b.entries.map Block.name).Nodup := by
  refine h.in_order.imp ?_
  rintro name _ hlt rfl
  exact Nat.lt_irrefl _ hlt

theorem Records.add?_isSome_iff (h : Records calls b) (line : Nat) :
    (b.add? name line).isSome = true ↔ name ∉ calls.map Prod.fst := by
  rw [← h.isKnown_iff, add?]
  split <;> simp_all

/-- The entries are in the order of their lines, and all lines are below the number. -/
structure Ascends (number : Nat) (b : Blocks) : Prop where
  in_order : b.entries.Pairwise fun e later => e.line < later.line
  below : ∀ e ∈ b.entries, e.line < number

theorem ascends_register (h : b.Ascends number) (name : Text) :
    (b.register name number).Ascends (number + 1) := by
  cases hk : b.isKnown name with
  | true =>
    rw [register_known number hk]
    exact ⟨h.in_order, fun e he => Nat.lt_succ_of_lt (h.below e he)⟩
  | false =>
    rw [register_unknown number hk]
    refine ⟨List.pairwise_append.2 ⟨h.in_order, List.pairwise_singleton _ _, ?_⟩, ?_⟩
    · intro e he later hlater
      rw [List.mem_singleton.1 hlater]
      exact h.below e he
    · intro e he
      rcases List.mem_append.1 he with he | he
      · exact Nat.lt_succ_of_lt (h.below e he)
      · rw [List.mem_singleton.1 he]
        exact Nat.lt_succ_self number

theorem registerLines_in_order (h : b.Ascends number) (lines : List Line) :
    (b.registerLines number lines).entries.Pairwise fun e later => e.line < later.line := by
  induction lines generalizing b number with
  | nil => exact h.in_order
  | cons line lines ih =>
    rw [registerLines_cons]
    cases line.label? with
    | none => exact ih ⟨h.in_order, fun e he => Nat.lt_succ_of_lt (h.below e he)⟩
    | some name => exact ih (ascends_register h name)

theorem consistent_registerLines (hb : b.Consistent) (lines : List Line) :
    (b.registerLines number lines).Consistent := by
  induction lines generalizing b number with
  | nil => exact hb
  | cons line lines ih =>
    rw [registerLines_cons]
    cases line.label? with
    | none => exact ih hb
    | some name => exact ih (consistent_register number hb)

theorem line?_ofScript_eq_none (script : Script) (name : Text) :
    (ofScript script).line? name = none ↔
      ∀ line ∈ script.lines, line.command ≠ some (.label name) := by
  rw [line?_ofScript, List.findIdx?_eq_none_iff]
  refine forall₂_congr fun line _ => ?_
  rw [decide_eq_false_iff_not, Line.label?_eq_some]

end Blocks

variable {σ : Type}

/-- A run that has an entry block can fail, but not for want of one. -/
theorem Session.run_noEntry_iff (session : Session) (sink : Sink σ) (out : σ) :
    (∃ failure, (session.run sink out).1 = .error failure ∧ failure.cause = .noEntry) ↔
      (Blocks.ofScript session.script).line? entryBlock = none := by
  constructor
  · rintro ⟨failure, hrun, hcause⟩
    cases hb : (Blocks.ofScript session.script).line? entryBlock with
    | none => rfl
    | some position =>
      rw [Session.run_eq, Engine.run_of_entry (session.setting sink) out hb] at hrun
      obtain ⟨_, _, _, _, line, _, rfl⟩ := Engine.exists_callChain_of_failed session sink
        (by simp [hcause]) hb (Engine.eq_failed_of_outcomeOf hrun)
      cases hcause
  · intro hb
    rw [Session.run_eq, Engine.run_of_no_entry (session.setting sink) out hb]
    exact ⟨_, rfl, rfl⟩

theorem Session.run_of_no_entry (session : Session) (sink : Sink σ) (out : σ)
    (h : (Blocks.ofScript session.script).line? entryBlock = none) :
    (session.run sink out).1 = .error { cause := .noEntry } ∧ (session.run sink out).2.1 = out ∧
      (session.run sink out).2.2.store = {} := by
  rw [Session.run_eq, Engine.run_of_no_entry (session.setting sink) out h]
  exact ⟨rfl, rfl, rfl⟩

namespace Shell

theorem exit_checkScript (file : Text) (script : Script) :
    (checkScript file script).exit = 1 ↔ (Blocks.ofScript script).line? entryBlock = none := by
  rw [checkScript]
  cases (Blocks.ofScript script).line? entryBlock <;> simp

theorem run_check {request : Request} {found : Disk.Found} {source : Text}
    (hload : load (unquoted request.operand) found = .ok source) (hcheck : .check ∈ request.flags)
    (hlist : .listBlocks ∉ request.flags) :
    run request found = checkScript (unquoted request.operand) (Script.ofSource source 0) := by
  simp only [run, hload, if_neg hlist, if_pos hcheck]

end Shell

/-- Blocks begin at their first labels, whoever asks for them. After any calls, the registry lists
each name once, in the order of the first calls; its index tells the place of each name in the list
and of nothing else; a name leads to the line of the first call with it, and a call adds a block
exactly if it is the first with its name. The blocks of a script are those of the first labels, in
the order of their lines. A run fails for want of an entry block, without output or variables,
exactly if no line bears the entry label, and that is exactly when checking the script fails. -/
theorem blocks_begin_at_first_labels :
    (∀ calls : List (Text × Nat), let b := Blocks.registerAll calls
      (b.entries.map Block.name).Nodup ∧
      (∀ name, name ∈ b.entries.map Block.name ↔ name ∈ calls.map Prod.fst) ∧
      ((b.entries.map Block.name).Pairwise fun name later =>
        (calls.map Prod.fst).idxOf name < (calls.map Prod.fst).idxOf later) ∧
      (∀ name i, b.index.get? name = some i ↔ b.entries[i]?.map Block.name = some name) ∧
      (∀ name, b.line? name = (calls.find? fun call => call.1 = name).map Prod.snd) ∧
      ∀ name line, ((b.add? name line).isSome = true ↔ name ∉ calls.map Prod.fst) ∧
        Blocks.registerAll (calls ++ [(name, line)]) = (b.add? name line).getD b) ∧
    (∀ script : Script, let b := Blocks.ofScript script
      (∀ name, b.line? name
        = script.lines.findIdx? fun line => line.command = some (.label name)) ∧
      (∀ name line, ⟨name, line⟩ ∈ b.entries ↔ b.line? name = some line) ∧
      b.entries.Pairwise fun e later => e.line < later.line) ∧
    (∀ (σ : Type) (session : Session) (sink : Sink σ) (out : σ),
      ((∃ failure, (session.run sink out).1 = .error failure ∧ failure.cause = .noEntry) ↔
        ∀ line ∈ session.script.lines, line.command ≠ some (.label entryBlock)) ∧
      ((∀ line ∈ session.script.lines, line.command ≠ some (.label entryBlock)) →
        (session.run sink out).1 = .error { cause := .noEntry } ∧
          (session.run sink out).2.1 = out ∧ (session.run sink out).2.2.store = {})) ∧
    ∀ (request : Shell.Request) (found : Disk.Found) (source : Text),
      Shell.load (Shell.unquoted request.operand) found = .ok source →
      .check ∈ request.flags → .listBlocks ∉ request.flags →
      ((Shell.run request found).exit = 1 ↔
        ∀ line ∈ (Script.ofSource source 0).lines, line.command ≠ some (.label entryBlock)) := by
  refine ⟨?_, ?_, ?_, ?_⟩
  · intro calls b
    have hrecords := Blocks.records_registerAll calls
    refine ⟨hrecords.nodup, hrecords.mem_iff, hrecords.in_order, ?_, hrecords.line?_eq, ?_⟩
    · intro name i
      exact hrecords.consistent.get?_iff
    · intro name line
      exact ⟨hrecords.add?_isSome_iff line, Blocks.registerAll_append calls name line⟩
  · intro script b
    have hconsistent : b.Consistent :=
      Blocks.consistent_registerLines Blocks.consistent_empty script.lines
    refine ⟨?_, fun name line => hconsistent.mem_entries_iff, ?_⟩
    · intro name
      simp only [b, Blocks.line?_ofScript, Line.label?_eq_some]
    · exact Blocks.registerLines_in_order ⟨.nil, by simp⟩ script.lines
  · intro σ session sink out
    rw [session.run_noEntry_iff, ← Blocks.line?_ofScript_eq_none]
    exact ⟨Iff.rfl, session.run_of_no_entry sink out⟩
  · intro request found source hload hcheck hlist
    rw [Shell.run_check hload hcheck hlist, Shell.exit_checkScript,
      Blocks.line?_ofScript_eq_none]

/-- Labels in other cases than that of the entry block, one of them twice. -/
def strayLabels : Text := "::start[Main]\n::start[b]\n::start[Main]\nmain".toList

theorem strayLabels_fail_check :
    (Blocks.registerAll [(['a'], 5), (['b'], 3), (['a'], 1)]).line? ['a'] = some 5 ∧
      (∀ line ∈ (Script.ofSource strayLabels 0).lines,
        line.command ≠ some (.label entryBlock)) ∧
      (({ script := Script.ofSource strayLabels 0 } : Session).run Sink.gather []).2.1 = [] ∧
      (Shell.run ⟨.run, "x.t14".toList, [.quiet, .check], none⟩
        (.file (.text strayLabels))).exit = 1 := by
  have hlines : ∀ line ∈ (Script.ofSource strayLabels 0).lines,
      line.command ≠ some (.label entryBlock) := by decide +kernel
  obtain ⟨hcalls, _, hrun, hcheck⟩ := blocks_begin_at_first_labels
  obtain ⟨_, _, _, _, hline, _⟩ := hcalls [(['a'], 5), (['b'], 3), (['a'], 1)]
  exact ⟨hline ['a'], hlines, ((hrun _ _ Sink.gather []).2 hlines).2.1,
    (hcheck _ _ strayLabels rfl (by decide) (by decide)).2 hlines⟩

end LineScript
