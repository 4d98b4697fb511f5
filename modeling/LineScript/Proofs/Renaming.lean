import LineScript.Proofs.Lockstep
import Mathlib.Logic.Equiv.Basic

/-!
Scripts whose blocks have other names. Main statement: as long as different blocks keep different
names and the entry block keeps its own, a run does not show what the blocks are called.
-/

namespace LineScript

def Branch.rename (f : Text → Text) (b : Branch) : Branch :=
  { b with whenTrue := f b.whenTrue, whenFalse := b.whenFalse.map f }

/-- The command with other names of blocks; names of variables stay. -/
def Command.rename (f : Text → Text) : Command → Command
  | .label block => .label (f block)
  | .call block => .call (f block)
  | .branch b => .branch (b.rename f)
  | command => command

def Line.rename (f : Text → Text) (line : Line) : Line :=
  { line with command := line.command.map (Command.rename f) }

def Block.rename (f : Text → Text) (block : Block) : Block := { block with name := f block.name }

namespace Script

def rename (f : Text → Text) (script : Script) : Script :=
  { script with lines := script.lines.map (Line.rename f) }

/-- A name that a run may look up: that of the entry block, of a label or of a block to call. -/
def NamesBlock (script : Script) (name : Text) : Prop :=
  name = entryBlock ∨ ∃ line ∈ script.lines, line.label? = some name ∨ line.MayCall name

/-- The names of blocks that occur in the script stay apart. -/
def KeepsApart (script : Script) (f : Text → Text) : Prop :=
  ∀ name name', script.NamesBlock name → script.NamesBlock name' → f name = f name' → name = name'

end Script

theorem Line.label?_rename (f : Text → Text) (line : Line) :
    (line.rename f).label? = line.label?.map f := by
  obtain ⟨text, span, command⟩ := line
  cases command with
  | none => rfl
  | some command => cases command <;> rfl

theorem Branch.target_rename (f : Text → Text) (b : Branch) (store : Store) :
    (b.rename f).target store = (b.target store).map f := by
  unfold Branch.target
  cases hc : b.comparison.holds (store.resolve b.left) (store.resolve b.right) <;>
    simp [Branch.rename, hc]

namespace Blocks

variable {f : Text → Text} {script : Script} {b b' : Blocks} {name : Text}

/-- The same blocks in the same order under their new names, as far as the script can tell. -/
structure Renamed (f : Text → Text) (script : Script) (b b' : Blocks) : Prop where
  entries : b'.entries = b.entries.map (Block.rename f)
  isKnown : ∀ name, script.NamesBlock name → b'.isKnown (f name) = b.isKnown name

theorem renamed_empty (f : Text → Text) (script : Script) : Renamed f script {} {} := by
  refine ⟨rfl, ?_⟩
  intro name _
  rfl

theorem renamed_register (hf : script.KeepsApart f) (hname : script.NamesBlock name) (n : Nat)
    (h : Renamed f script b b') :
    Renamed f script (b.register name n) (b'.register (f name) n) := by
  have hknown := h.isKnown name hname
  cases hk : b.isKnown name with
  | true =>
    rw [register_known n hk, register_known n (hknown.trans hk)]
    exact h
  | false =>
    rw [register_unknown n hk, register_unknown n (hknown.trans hk)]
    refine ⟨by simp [h.entries, Block.rename], ?_⟩
    intro key hkey
    have hold := h.isKnown key hkey
    simp only [isKnown, Table.get?_put] at hold ⊢
    -- The two tables differ in one key each, and those keys correspond.
    by_cases he : key = name
    · subst he
      simp
    · have hne : f key ≠ f name := fun heq => he (hf key name hkey hname heq)
      rw [if_neg he, if_neg hne]
      exact hold

theorem renamed_registerLines (hf : script.KeepsApart f) (number : Nat) (lines : List Line)
    (hlines : ∀ line ∈ lines, line ∈ script.lines) (h : Renamed f script b b') :
    Renamed f script (b.registerLines number lines)
      (b'.registerLines number (lines.map (Line.rename f))) := by
  induction lines generalizing b b' number with
  | nil => exact h
  | cons line rest ih =>
    have hrest : ∀ line ∈ rest, line ∈ script.lines := by
      intro other hmem
      exact hlines other (List.mem_cons_of_mem line hmem)
    rw [List.map_cons, registerLines_cons, registerLines_cons, Line.label?_rename]
    apply ih (number + 1) hrest
    cases hl : line.label? with
    | none => exact h
    | some name =>
      have hname : script.NamesBlock name :=
        .inr ⟨line, hlines line List.mem_cons_self, .inl hl⟩
      exact renamed_register hf hname number h

theorem renamed_ofScript (hf : script.KeepsApart f) :
    Renamed f script (ofScript script) (ofScript (script.rename f)) :=
  renamed_registerLines hf 0 script.lines (fun _ h => h) (renamed_empty f script)

end Blocks

namespace Engine

variable {σ : Type} {f : Text → Text}

def Effect.rename (f : Text → Text) : Effect → Effect
  | .enter block => .enter (f block)
  | effect => effect

theorem effect_rename (f : Text → Text) (converter : Converter) (store : Store)
    (command : Option Command) :
    effect converter store (command.map (Command.rename f))
      = (effect converter store command).rename f := by
  cases command with
  | none => rfl
  | some command =>
    cases command with
    | branch b =>
      simp only [Option.map_some, Command.rename, effect, Branch.target_rename]
      cases b.target store <;> rfl
    | halt | label | leave | call | assign | copy | identify | convert | say => rfl

/-- A call of a block becomes a call of the renamed one, and all else stays as it is. -/
theorem perform_rename (sink : Sink σ) (s : State σ) (e : Effect) {calls : Text → Text → Prop}
    (h : ∀ block, e = .enter block → calls block (f block)) :
    Action.Alike calls (perform sink s e).1 (perform sink s (e.rename f)).1 ∧
      (perform sink s (e.rename f)).2 = (perform sink s e).2 := by
  cases e with
  | enter block => exact ⟨.enter (h block rfl), rfl⟩
  | print texts =>
    refine ⟨Action.alike_self _ ?_, rfl⟩
    intro block hb
    simp only [perform] at hb
    split at hb <;> cases hb
  | update store => exact ⟨.proceed, rfl⟩
  | leave => exact ⟨.leave, rfl⟩
  | halt => exact ⟨.halt, rfl⟩

theorem linesAlike_rename {left right : Setting σ} {calls : Text → Text → Prop}
    (hc : right.converter = left.converter) (hs : right.sink = left.sink) (line : Line)
    (hcalls : ∀ block, line.MayCall block → calls block (f block)) :
    LinesAlike left right (fun s s' => s' = s) calls line (line.rename f) := by
  refine ⟨rfl, ?_⟩
  rintro _ s rfl
  have heffect := effect_rename f left.converter s.store line.command
  rw [act_eq_perform, act_eq_perform, hc, hs, Line.rename, heffect]
  exact perform_rename left.sink s _ fun block he => hcalls block (mayCall_of_effect he)

/-- A script and the same script under other names run in step, on equal states. -/
def renamingCoupling (session : Session) (sink : Sink σ) (hf : session.script.KeepsApart f)
    (hentry : f entryBlock = entryBlock) :
    Coupling (session.setting sink)
      (({ session with script := session.script.rename f } : Session).setting sink) where
  alike s s' := s' = s
  calls block block' := session.script.NamesBlock block ∧ block' = f block
  limit := rfl
  sourceId := rfl
  entry := ⟨.inl rfl, hentry.symm⟩
  frames := by
    rintro block _ ⟨hblock, rfl⟩
    rw [frame?_setting, frame?_setting]
    have hlines : List.Forall₂
        (fun line line' => line ∈ session.script.lines ∧ line' = line.rename f)
        session.script.lines (session.script.rename f).lines := by
      refine List.forall₂_map_right_iff.2 (List.forall₂_same.2 ?_)
      intro line hline
      exact ⟨hline, rfl⟩
    refine blocksAlike_of_forall₂ ?_ ?_ hlines
    · rintro line _ ⟨hline, rfl⟩
      rw [Line.label?_rename, Option.map_eq_some_iff]
      constructor
      · rintro ⟨name, hname, heq⟩
        have hnames : session.script.NamesBlock name := .inr ⟨line, hline, .inl hname⟩
        rw [hname, hf name block hnames hblock heq]
      · intro hname
        exact ⟨block, hname, rfl⟩
    · rintro line _ ⟨hline, rfl⟩
      apply linesAlike_rename (by rfl) (by rfl)
      intro callee hcallee
      exact ⟨.inr ⟨line, hline, .inr hcallee⟩, rfl⟩

end Engine

/-- Blocks can be renamed: with new names that stay apart, and with the entry block under its own
name, the outcome, the output and the variables are those of the script before, for every limit,
converter and sink, and the blocks are found at the same lines in the same order. -/
theorem run_rename {σ : Type} (session : Session) (sink : Sink σ) (out : σ) (f : Text → Text)
    (hf : session.script.KeepsApart f) (hentry : f entryBlock = entryBlock) :
    let renamed : Session := { session with script := session.script.rename f }
    (renamed.run sink out).1 = (session.run sink out).1 ∧
      (renamed.run sink out).2.1 = (session.run sink out).2.1 ∧
      (renamed.run sink out).2.2.store = (session.run sink out).2.2.store ∧
      (Blocks.ofScript renamed.script).entries
        = (Blocks.ofScript session.script).entries.map (Block.rename f) := by
  intro renamed
  obtain ⟨houtcome, hout, hstore⟩ :=
    (Engine.renamingCoupling session sink hf hentry).session_run_eq (fun _ _ => Iff.rfl) out
  exact ⟨houtcome, hout, hstore, (Blocks.renamed_ofScript hf).entries⟩

/-- Prints the variable that has the name of the block that is called. -/
def namesake : Script where
  lines := [
    ⟨"::start[main]".toList, ⟨0, 13⟩, some (.label entryBlock)⟩,
    ⟨"::set [x] = 1".toList, ⟨14, 27⟩, some (.assign ['x'] ['1'])⟩,
    ⟨"::run[x]".toList, ⟨28, 36⟩, some (.call ['x'])⟩,
    ⟨"::end".toList, ⟨37, 42⟩, some .leave⟩,
    ⟨"::start[x]".toList, ⟨43, 53⟩, some (.label ['x'])⟩,
    ⟨"[x]".toList, ⟨54, 57⟩, some (.say [.ref ['x']])⟩]
  sourceId := 0

def exchange : Text → Text := Equiv.swap ['x'] ['y']

theorem namesake_renamed :
    namesake.KeepsApart exchange ∧ exchange entryBlock = entryBlock ∧
      (({ script := namesake.rename exchange } : Session).run Sink.gather []).2.1
        = [['\n'], ['1']] ∧
      (Blocks.ofScript (namesake.rename exchange)).entries = [⟨entryBlock, 0⟩, ⟨['y'], 4⟩] := by
  have hapart : namesake.KeepsApart exchange := by
    intro name name' _ _ h
    exact (Equiv.swap ['x'] ['y']).injective h
  have hentry : exchange entryBlock = entryBlock := by decide
  obtain ⟨_, hout, _, hblocks⟩ :=
    run_rename { script := namesake } Sink.gather [] exchange hapart hentry
  have hbefore : (({ script := namesake } : Session).run Sink.gather []).2.1 = [['\n'], ['1']] := by
    decide
  exact ⟨hapart, hentry, hout.trans hbefore, hblocks.trans (by decide)⟩

end LineScript
