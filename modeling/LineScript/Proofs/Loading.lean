import LineScript.Proofs.Relocation
import LineScript.Proofs.SourceLines

/-!
The two ways to make a script. Main statement: lines that are already apart, and the source in which
each of them stands before a terminator, make scripts that run alike.
-/

namespace LineScript

namespace Text

variable {text ending source : Text} {texts : List Text}

/-- Can be a line by itself: it has no line feed, and no carriage return that would belong to a
terminator. -/
def IsUnbroken (text : Text) : Prop := '\n' ∉ text ∧ text.getLast? ≠ some '\r'

/-- A source with a line feed, or a carriage return and a line feed, after each of the lines. The
last line may do without if it is not empty. -/
inductive Terminated : List Text → Text → Prop
  | nil : Terminated [] []
  | last {text : Text} : text ≠ [] → Terminated [text] text
  | line {texts : List Text} {source ending : Text} (text : Text) :
      ending = ['\n'] ∨ ending = ['\r', '\n'] → Terminated texts source →
      Terminated (text :: texts) (text ++ ending ++ source)

theorem IsUnbroken.getD_before? (h : text.IsUnbroken) :
    (before? ['\r'] text).getD text = text := by
  rcases before?_getD_cases '\r' text with hreturn | ⟨hsame, _⟩
  · have hlast : text.getLast? = some '\r' := by
      rw [hreturn]
      simp
    exact (h.2 hlast).elim
  · exact hsame.symm

theorem IsUnbroken.chomp_self (h : text.IsUnbroken) : chomp text = text := by
  rw [chomp_last h.1, h.getD_before?]

theorem IsUnbroken.chomp_append (h : text.IsUnbroken)
    (hending : ending = ['\n'] ∨ ending = ['\r', '\n']) : chomp (text ++ ending) = text := by
  rcases hending with rfl | rfl
  · rw [chomp_line, h.getD_before?]
  · have hreturn : before? ['\r'] (text ++ ['\r']) = some text := before?_eq_some.2 rfl
    have hchomp := chomp_line (text ++ ['\r'])
    rwa [hreturn, Option.getD_some, List.append_assoc] at hchomp

theorem IsUnbroken.pieces_append (h : text.IsUnbroken) (source : Text)
    (hending : ending = ['\n'] ∨ ending = ['\r', '\n']) :
    pieces (text ++ ending ++ source) = (text ++ ending) :: pieces source := by
  rcases hending with rfl | rfl
  · simpa using pieces_line source h.1
  · have hbody : '\n' ∉ text ++ ['\r'] := by simp [h.1]
    simpa using pieces_line source hbody

theorem chomp_pieces (hlines : ∀ text ∈ texts, text.IsUnbroken) (h : Terminated texts source) :
    (pieces source).map chomp = texts := by
  induction h with
  | nil => rfl
  | last hne =>
    have hline := hlines _ List.mem_cons_self
    rw [pieces_last hne hline.1, List.map_singleton, hline.chomp_self]
  | line text hending _ ih =>
    obtain ⟨hline, hrest⟩ := List.forall_mem_cons.1 hlines
    rw [hline.pieces_append _ hending, List.map_cons, hline.chomp_append hending, ih hrest]

/-- If the lines with their terminators are the lines with line feeds between neighbours, then the
first terminator is a line feed, and the same holds of what follows it. -/
theorem Terminated.of_join (h : Terminated texts source)
    (hending : ending = ['\n'] ∨ ending = ['\r', '\n'])
    (hjoin : text ++ ending ++ source = join ['\n'] (text :: texts)) :
    ending = ['\n'] ∧ source = join ['\n'] texts := by
  cases texts with
  | nil =>
    have hlength := congrArg List.length hjoin
    rcases hending with rfl | rfl <;> simp [join] at hlength
  | cons next rest =>
    have htail : ending ++ source = '\n' :: join ['\n'] (next :: rest) := by
      simpa [join, List.intercalate_cons_cons] using hjoin
    rcases hending with rfl | rfl
    · exact ⟨rfl, List.tail_eq_of_cons_eq htail⟩
    · cases htail

end Text

namespace Script

variable {source : Text} {texts : List Text}

theorem texts_linesOfPieces (offset : Nat) (pieces : List Text) :
    (linesOfPieces offset pieces).map Line.text = pieces.map Text.chomp := by
  induction pieces generalizing offset with
  | nil => rfl
  | cons piece rest ih => simp [linesOfPieces, Line.at, ih]

theorem texts_linesOfTexts (offset : Nat) (texts : List Text) :
    (linesOfTexts offset texts).map Line.text = texts := by
  induction texts generalizing offset with
  | nil => rfl
  | cons text rest ih => simp [linesOfTexts, Line.at, ih]

/-- With a line feed between neighbours and none at the end, the lines lie in the same places too. -/
theorem linesOfPieces_join (hlines : ∀ text ∈ texts, Text.IsUnbroken text)
    (h : Text.Terminated texts source) (hjoin : source = Text.join ['\n'] texts) (offset : Nat) :
    linesOfPieces offset (Text.pieces source) = linesOfTexts offset texts := by
  induction h generalizing offset with
  | nil => rfl
  | last hne =>
    have hline := hlines _ List.mem_cons_self
    rw [Text.pieces_last hne hline.1, linesOfPieces, hline.chomp_self]
    rfl
  | line text hending hrest ih =>
    obtain ⟨hline, hlater⟩ := List.forall_mem_cons.1 hlines
    obtain ⟨rfl, hsource⟩ := hrest.of_join hending hjoin
    have hfeed : Text.byteSize ['\n'] = 1 := by decide
    rw [hline.pieces_append _ hending, linesOfPieces, linesOfTexts, hline.chomp_append hending,
      ih hlater hsource, Text.byteSize_append, hfeed, Nat.add_assoc]

theorem WasRead.commands_eq {script : Script} (h : script.WasRead) :
    script.lines.map Line.command = (script.lines.map Line.text).map Command.read? := by
  rw [List.map_map]
  refine List.map_congr_left ?_
  intro line hline
  exact h.command_eq hline

/-- The script with all of its lines in one place, whatever their own. -/
def unplaced (script : Script) : Script := script.moved (fun _ => ⟨0, 0⟩) 0

/-- Scripts that were read from the same texts differ in the places of their lines alone. -/
theorem WasRead.unplaced_eq {script script' : Script} (h : script.WasRead) (h' : script'.WasRead)
    (htexts : script'.lines.map Line.text = script.lines.map Line.text) :
    script'.unplaced = script.unplaced := by
  have hlines {script : Script} (h : script.WasRead) :
      script.lines.map (Line.moved fun _ => ⟨0, 0⟩)
        = (script.lines.map Line.text).map fun text => ⟨text, ⟨0, 0⟩, Command.read? text⟩ := by
    rw [List.map_map]
    refine List.map_congr_left ?_
    intro line hline
    simp [Line.moved, h.command_eq hline]
  simp only [unplaced, moved, hlines h, hlines h', htexts]

end Script

/-- Where the lines of a script lie changes nothing in a run but the place to blame. -/
theorem Session.run_unplaced {σ : Type} (session : Session) (sink : Sink σ) (out : σ) :
    let unplaced : Session := { session with script := session.script.unplaced }
    (unplaced.run sink out).1.kind = (session.run sink out).1.kind ∧
      (unplaced.run sink out).2.1 = (session.run sink out).2.1 ∧
      (unplaced.run sink out).2.2.store = (session.run sink out).2.2.store ∧
      (unplaced.run sink out).2.2.blocks = (session.run sink out).2.2.blocks := by
  intro unplaced
  obtain ⟨houtcome, hrest⟩ := session.run_moved sink out (fun _ => ⟨0, 0⟩) 0
  exact ⟨(congrArg Outcome.kind houtcome).trans (Outcome.kind_moved _ _ _), hrest⟩

/-- The two ways to make a script agree. For lines without line feeds, none of which ends in a
carriage return, the source with either terminator after each has the same texts and commands, and
with single line feeds between the lines also the same spans. On every sink, whatever the limit, the
converter and earlier runs, the two scripts end in the same way with the same output, variables and
blocks; only the place that a failure names can differ. -/
theorem ofSource_agrees_with_ofLines {σ : Type} (texts : List Text) (source : Text) (sourceId : Nat)
    (session : Session) (sink : Sink σ) (out : σ)
    (hlines : ∀ text ∈ texts, '\n' ∉ text ∧ text.getLast? ≠ some '\r')
    (hsource : Text.Terminated texts source) :
    let parsed := Script.ofSource source sourceId
    let given := Script.ofLines texts
    let parsedRun := ({ session with script := parsed } : Session).run sink out
    let givenRun := ({ session with script := given } : Session).run sink out
    parsed.lines.map Line.text = texts ∧ given.lines.map Line.text = texts ∧
      parsed.lines.map Line.command = texts.map Command.read? ∧
      given.lines.map Line.command = texts.map Command.read? ∧
      (source = Text.join ['\n'] texts →
        parsed.lines.map Line.span = given.lines.map Line.span) ∧
      parsedRun.1.kind = givenRun.1.kind ∧ parsedRun.2.1 = givenRun.2.1 ∧
      parsedRun.2.2.store = givenRun.2.2.store ∧ parsedRun.2.2.blocks = givenRun.2.2.blocks := by
  intro parsed given parsedRun givenRun
  have hparsed : parsed.WasRead := .inl ⟨source, sourceId, rfl⟩
  have hgiven : given.WasRead := .inr ⟨texts, rfl⟩
  have hparsedTexts : parsed.lines.map Line.text = texts :=
    (Script.texts_linesOfPieces 0 _).trans (Text.chomp_pieces hlines hsource)
  have hgivenTexts : given.lines.map Line.text = texts := Script.texts_linesOfTexts 0 texts
  refine ⟨hparsedTexts, hgivenTexts, ?_, ?_, ?_, ?_⟩
  · rw [hparsed.commands_eq, hparsedTexts]
  · rw [hgiven.commands_eq, hgivenTexts]
  · intro hjoin
    exact congrArg (List.map Line.span) (Script.linesOfPieces_join hlines hsource hjoin 0)
  · -- Without the places of their lines, the two scripts are the same.
    have hrun := ({ session with script := parsed } : Session).run_unplaced sink out
    have hrun' := ({ session with script := given } : Session).run_unplaced sink out
    simp only [hgiven.unplaced_eq hparsed (hparsedTexts.trans hgivenTexts.symm)] at hrun
    obtain ⟨hkind, hout, hstore, hblocks⟩ := hrun
    obtain ⟨hkind', hout', hstore', hblocks'⟩ := hrun'
    exact ⟨hkind.symm.trans hkind', hout.symm.trans hout', hstore.symm.trans hstore',
      hblocks.symm.trans hblocks'⟩

/-- A block that calls itself after an empty line and a comment with a carriage return inside. -/
def mixedTexts : List Text :=
  ["::start[main]".toList, [], "# a\rb".toList, "::run[main]".toList]

def mixedSource : Text := "::start[main]\r\n\n# a\rb\r\n::run[main]".toList

theorem mixedSource_runs_as_mixedTexts :
    (∀ text ∈ mixedTexts, '\n' ∉ text ∧ text.getLast? ≠ some '\r') ∧
      Text.Terminated mixedTexts mixedSource ∧
      (Script.ofSource mixedSource 3).lines.map Line.text = mixedTexts ∧
      (({ script := Script.ofSource mixedSource 3, limit := 1 } : Session).run Sink.gather
        []).1.kind = .error (.overflow 1) := by
  have hlines : ∀ text ∈ mixedTexts, '\n' ∉ text ∧ text.getLast? ≠ some '\r' := by decide
  have hsource : Text.Terminated mixedTexts mixedSource := by
    refine .line "::start[main]".toList (.inr rfl) (.line [] (.inl rfl) ?_)
    refine .line "# a\rb".toList (.inr rfl) (.last ?_)
    decide
  obtain ⟨htexts, _, _, _, _, hkind, _⟩ := ofSource_agrees_with_ofLines mixedTexts mixedSource 3
    { script := ⟨[], 0⟩, limit := 1 } Sink.gather [] hlines hsource
  have hgiven : (({ script := Script.ofLines mixedTexts, limit := 1 } : Session).run Sink.gather
      []).1.kind = .error (.overflow 1) := by decide
  exact ⟨hlines, hsource, htexts, hkind.trans hgiven⟩

end LineScript
