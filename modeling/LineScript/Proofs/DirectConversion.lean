import LineScript.Proofs.Discovery
import LineScript.Proofs.Emission
import LineScript.Proofs.TokenGrammar
import LineScript.Shell.Response

/-!
One line converted by itself. Main statement: it prints what a script with that line alone prints,
up to an empty line, and it can be converted exactly if it asks for a conversion or a report.
-/

namespace LineScript

variable {e : Text} {texts : List Text}

theorem Text.unlines_cons (line : Text) (lines : List Text) :
    unlines (line :: lines) = line ++ '\n' :: unlines lines := by
  simp [unlines]

/-- A gathering sink takes every line, with a line feed after it. -/
theorem Sink.gather_emitAll (lines : List Text) (out : List Text) :
    (gather.emitAll lines out).2 = none ∧
      gathered (gather.emitAll lines out).1 = gathered out ++ Text.unlines lines := by
  induction lines generalizing out with
  | nil => simp [emitAll, Text.unlines]
  | cons line lines ih =>
    obtain ⟨hnone, hout⟩ := ih (['\n'] :: line :: out)
    refine ⟨hnone, hout.trans ?_⟩
    simp [gathered, Text.unlines_cons]

/-- The script that has a line alone in its entry block. -/
def Script.ofLine (e : Text) : Script := Script.ofLines ["::start[main]".toList, e]

theorem Script.entry_ofLine (e : Text) :
    (Blocks.ofScript (ofLine e)).line? entryBlock = some 0 := by
  have hlabel : (Line.at 0 "::start[main]".toList).label? = some entryBlock := by decide
  rw [Blocks.line?_ofScript, ofLine, ofLines, linesOfTexts, List.findIdx?_cons, hlabel]
  simp

/-- If the line asks for nothing but to print, then that is what the script does. -/
theorem Script.run_ofLine
    (h : Engine.effect Converter.standard {} (Command.read? e) = .print texts) :
    ((ofLine e).run Sink.gather []).1 = .ok .finished ∧
      gathered ((ofLine e).run Sink.gather []).2 = Text.unlines texts := by
  obtain ⟨hnone, hout⟩ := Sink.gather_emitAll texts []
  have hemit : Sink.gather.emitAll texts [] = ((Sink.gather.emitAll texts []).1, none) := by
    rw [← hnone]
  let setting := ({ script := ofLine e } : Session).setting Sink.gather
  have hbody : Engine.body setting (Engine.call setting setting.limit)
      (setting.script.lines.drop (0 + 1)) ⟨{}, []⟩
        = (.returned, ⟨{}, (Sink.gather.emitAll texts []).1⟩) :=
    Engine.body_print [] h hemit
  have hrun := Engine.run_of_entry setting [] (entry_ofLine e)
  rw [hbody] at hrun
  have hscript : (ofLine e).run Sink.gather []
      = ((Engine.run setting []).1, (Engine.run setting []).2.out) := rfl
  rw [hscript, hrun]
  exact ⟨rfl, hout⟩

namespace Shell

theorem convert_of_some (h : convertedLines? e = some texts) :
    (convert e).exit = 0 ∧ (convert e).stdout = Text.unlines texts := by
  rw [convert, h]
  exact ⟨rfl, rfl⟩

theorem convert_of_none (h : convertedLines? e = none) :
    (convert e).exit = 1 ∧ (convert e).stdout = [] := by
  rw [convert, h]
  exact ⟨rfl, rfl⟩

theorem convertedLines?_convert {line : Template} (h : Command.read? e = some (.convert line)) :
    convertedLines? e = some [line.render Converter.standard {}] := by
  rw [convertedLines?, h]

theorem convertedLines?_identify {value : Operand}
    (h : Command.read? e = some (.identify value)) :
    convertedLines? e = some (Converter.standard.identify (Store.resolve {} value)) := by
  rw [convertedLines?, h]

theorem convertedLines?_other (hconvert : ∀ line, Command.read? e ≠ some (.convert line))
    (hidentify : ∀ value, Command.read? e ≠ some (.identify value)) : convertedLines? e = none := by
  unfold convertedLines?
  split
  · rename_i line h
    exact (hconvert line h).elim
  · rename_i value h
    exact (hidentify value h).elim
  · rfl

/-- A line in no structural form can be converted exactly if its template has a conversion. -/
theorem exit_convert_iff (hcomment : Command.isComment e = false)
    (hforms : ∀ form ∈ Command.Form.structural, form (Text.trim e) = none) :
    (convert e).exit = 0 ↔ (Template.read e).hasConversions = true := by
  have hread := Command.read?_of_no_form hcomment hforms
  cases hc : (Template.read e).hasConversions with
  | true =>
    rw [Command.ofTemplate, hc, if_pos rfl] at hread
    simp [(convert_of_some (convertedLines?_convert hread)).1]
  | false =>
    rw [Command.ofTemplate, hc, if_neg Bool.false_ne_true] at hread
    have hnone : convertedLines? e = none :=
      convertedLines?_other (by simp [hread]) (by simp [hread])
    simp [(convert_of_none hnone).1]

end Shell

/-- Converting a line by itself agrees with running it. If it asks for a conversion or for a report,
both print the same, except that what a conversion leaves empty is an empty line by itself and
nothing at all in a script; any other line is refused. A line that is no comment and in no
structural form is converted exactly if a conversion begins somewhere in it. -/
theorem convert_agrees_with_run (e : Text) :
    let response := Shell.convert e
    let run := (Script.ofLines ["::start[main]".toList, e]).run Sink.gather []
    (∀ line, Command.read? e = some (.convert line) →
      response.exit = 0 ∧ run.1 = .ok .finished ∧
        (line.render Converter.standard {} ≠ [] → response.stdout = gathered run.2) ∧
        (line.render Converter.standard {} = [] →
          response.stdout = ['\n'] ∧ gathered run.2 = [])) ∧
      (∀ value, Command.read? e = some (.identify value) →
        response.exit = 0 ∧ run.1 = .ok .finished ∧ response.stdout = gathered run.2) ∧
      ((∀ line, Command.read? e ≠ some (.convert line)) →
        (∀ value, Command.read? e ≠ some (.identify value)) →
        response.exit = 1 ∧ response.stdout = []) ∧
      (Command.isComment e = false →
        (∀ form ∈ Command.Form.structural, form (Text.trim e) = none) →
        (response.exit = 0 ↔ ∃ suffix, suffix <:+ e ∧ Token.BeginsConversion suffix)) := by
  intro response run
  refine ⟨?_, ?_, ?_, ?_⟩
  · intro line hread
    obtain ⟨hexit, hstdout⟩ := Shell.convert_of_some (Shell.convertedLines?_convert hread)
    have heffect : Engine.effect Converter.standard {} (Command.read? e)
        = .print (Engine.printed Converter.standard {} line) := by rw [hread]; rfl
    obtain ⟨hfinished, hout⟩ := Script.run_ofLine heffect
    refine ⟨hexit, hfinished, ?_, ?_⟩
    · intro hne
      rw [Engine.printed, if_neg hne] at hout
      exact hstdout.trans hout.symm
    · intro hempty
      rw [Engine.printed, if_pos hempty] at hout
      rw [hempty] at hstdout
      exact ⟨hstdout, hout⟩
  · intro value hread
    obtain ⟨hexit, hstdout⟩ := Shell.convert_of_some (Shell.convertedLines?_identify hread)
    have heffect : Engine.effect Converter.standard {} (Command.read? e)
        = .print (Converter.standard.identify (Store.resolve {} value)) := by rw [hread]; rfl
    obtain ⟨hfinished, hout⟩ := Script.run_ofLine heffect
    exact ⟨hexit, hfinished, hstdout.trans hout.symm⟩
  · intro hconvert hidentify
    exact Shell.convert_of_none (Shell.convertedLines?_other hconvert hidentify)
  · intro hcomment hforms
    rw [← Template.hasConversions_read_iff]
    exact Shell.exit_convert_iff hcomment hforms

/-- A conversion of what is no number, which comes out empty. -/
def emptyConversion : Text := "::dec->hex[zz]".toList

/-- A conversion inside brackets that make no reference. -/
def bracketedConversion : Text := "[::dec->bin[5]]".toList

theorem conversions_agree_with_run :
    Command.read? emptyConversion = some (.convert
        [.conversion "dec->hex".toList (.literal "zz".toList) emptyConversion]) ∧
      (Shell.convert emptyConversion).stdout = ['\n'] ∧
      gathered ((Script.ofLines ["::start[main]".toList, emptyConversion]).run Sink.gather []).2
        = [] ∧
      (∀ form ∈ Command.Form.structural, form (Text.trim bracketedConversion) = none) ∧
      Token.BeginsConversion (bracketedConversion.drop 1) ∧
      (Shell.convert bracketedConversion).exit = 0 ∧
      Command.read? bracketedConversion = some (.convert
        [.literal ['['], .conversion "dec->bin".toList (.literal ['5']) "::dec->bin[5]".toList,
          .literal [']']]) ∧
      (Shell.convert bracketedConversion).stdout = "[101]\n".toList ∧
      gathered ((Script.ofLines ["::start[main]".toList, bracketedConversion]).run
        Sink.gather []).2 = "[101]\n".toList := by
  have hread : Command.read? emptyConversion = some (.convert
      [.conversion "dec->hex".toList (.literal "zz".toList) emptyConversion]) := by decide +kernel
  have hforms : ∀ form ∈ Command.Form.structural,
      form (Text.trim bracketedConversion) = none := by decide
  have hbegins : Token.BeginsConversion (bracketedConversion.drop 1) := by
    refine ⟨"dec->bin".toList, ['5'], [']'], rfl, by decide, by simp, ?_⟩
    exact (Text.closes_cons_iff (by decide)).2 Text.closes_nil
  have hbracketed : Command.read? bracketedConversion = some (.convert
      [.literal ['['], .conversion "dec->bin".toList (.literal ['5']) "::dec->bin[5]".toList,
        .literal [']']]) := by decide +kernel
  have hprinted : (Shell.convert bracketedConversion).stdout = "[101]\n".toList := by
    decide +kernel
  obtain ⟨hconvert, _⟩ := convert_agrees_with_run emptyConversion
  obtain ⟨_, _, _, hempty⟩ := hconvert _ hread
  obtain ⟨hstdout, hout⟩ := hempty (by decide)
  obtain ⟨hconvert, _, _, hexit⟩ := convert_agrees_with_run bracketedConversion
  obtain ⟨_, _, hsame, _⟩ := hconvert _ hbracketed
  exact ⟨hread, hstdout, hout, hforms, hbegins,
    (hexit (by decide) hforms).2 ⟨_, List.drop_suffix 1 _, hbegins⟩, hbracketed, hprinted,
    (hsame (by decide +kernel)).symm.trans hprinted⟩

end LineScript
