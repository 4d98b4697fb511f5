import LineScript.Proofs.FolderSearch
import LineScript.Shell.Response
import Mathlib.Data.List.Forall2

/-!
What is printed about tests. Main statement: however headers are read, a line for each test says
whether it passed and what it is called, then comes what went wrong and then the numbers of those
that passed and failed, all in the order of the tests.
-/

namespace LineScript

/-- The name of a file is what follows the last slash of its path. -/
theorem Disk.fileName_append (folder : Text) {name : Text} (h : '/' ∉ name) :
    fileName (folder ++ '/' :: name) = name := by
  have hname : name.splitOn '/' = [name] := by
    rw [List.splitOn_eq_splitOnP]
    refine List.splitOnP_eq_singleton ?_
    intro c hc
    exact beq_false_of_ne fun he => h (he ▸ hc)
  rw [fileName, splitOn_append_slash, hname, List.getLast?_concat]
  rfl

theorem Disk.slash_mem_extend (root : Text) (names : List Text) : '/' ∈ extend root names := by
  unfold extend
  split
  · rename_i hslash
    exact List.mem_append_left _ (List.mem_of_getLast? hslash)
  · simp

theorem Numeral.decimal_eq_toDigits (n : Nat) : decimal n = Nat.toDigits 10 n := by
  have hdigit : ∀ c ∈ Nat.toDigits 10 n, c.toUpper = id c := by
    intro c hc
    have hc := Nat.isDigit_of_mem_toDigits (by decide) (by decide) hc
    simp only [Char.isDigit, Bool.and_eq_true, decide_eq_true_eq, UInt32.le_iff_toNat_le] at hc
    refine dif_neg ?_
    rw [UInt32.le_iff_toNat_le]
    rintro ⟨hle, _⟩
    exact absurd (Nat.le_trans hle hc.2) (by decide)
  rw [decimal, write, List.map_congr_left hdigit, List.map_id]

namespace Trial

variable {decode : Decoder} {c : Candidate} {r : Report} {path stem : Text}

/-- The name of the file at a path, without the ending of test files. -/
def IsStem (path stem : Text) : Prop :=
  '/' ∉ stem ∧ ∃ folder, path = folder ++ '/' :: (stem ++ ".test.t14".toList)

theorem defaultLabel_of_isStem (h : IsStem path stem) : defaultLabel path = stem := by
  obtain ⟨hslash, folder, rfl⟩ := h
  have hname : '/' ∉ stem ++ ".test.t14".toList := by
    rw [List.mem_append]
    rintro (hmem | hmem)
    · exact hslash hmem
    · revert hmem
      decide
  have hbefore : Text.before? suffix (stem ++ ".test.t14".toList) = some stem :=
    Text.before?_eq_some.2 rfl
  simp only [defaultLabel, Disk.fileName_append folder hname, hbefore, Option.getD_some]

/-- The ending of test files has no slash, so that it belongs to the name of the file. -/
theorem exists_isStem (hslash : '/' ∈ path) (h : ".test.t14".toList <:+ path) :
    ∃ stem, IsStem path stem := by
  obtain ⟨back, front, hpath, hback⟩ := List.eq_append_cons_of_mem (List.mem_reverse.2 hslash)
  have hpath : path = front.reverse ++ '/' :: back.reverse := by
    simpa using congrArg List.reverse hpath
  have hname : '/' :: back.reverse <:+ path := ⟨front.reverse, hpath.symm⟩
  have hsuffix : '/' ∉ ".test.t14".toList := by decide
  obtain ⟨stem, hstem⟩ : ".test.t14".toList <:+ back.reverse := by
    rcases List.suffix_or_suffix_of_suffix h hname with hin | hin
    · rcases List.suffix_cons_iff.1 hin with heq | hin
      · rw [heq] at hsuffix
        exact (hsuffix List.mem_cons_self).elim
      · exact hin
    · exact (hsuffix (hin.subset List.mem_cons_self)).elim
  refine ⟨stem, ?_, front.reverse, by rw [hpath, hstem]⟩
  intro hmem
  apply hback
  rw [← List.mem_reverse, ← hstem]
  exact List.mem_append_left _ hmem

/-- What is to be reported of a test file. It fails, under the name of the file, if it cannot be
read or is no test file; otherwise the run tells whether it passes, under the description that the
test may have. -/
inductive ReportedAs (decode : Decoder) (c : Candidate) : Report → Prop
  | unreadable {reason stem : Text} : c.content = .unreadable reason → IsStem c.path stem →
      ReportedAs decode c ⟨c.path, stem, some ("cannot read file: ".toList ++ reason)⟩
  | defective {content stem : Text} {defect : Defect} : c.content = .text content →
      readWith decode content = .error defect → IsStem c.path stem →
      ReportedAs decode c ⟨c.path, stem, some defect.message⟩
  | failed {content stem : Text} {t : Trial} {mismatch : Mismatch} : c.content = .text content →
      readWith decode content = .ok t → t.check = some mismatch → IsStem c.path stem →
      ReportedAs decode c ⟨c.path, t.expected.description.getD stem, some mismatch.message⟩
  | passed {content stem : Text} {t : Trial} : c.content = .text content →
      readWith decode content = .ok t → t.check = none → IsStem c.path stem →
      ReportedAs decode c ⟨c.path, t.expected.description.getD stem, none⟩

theorem reportedAs_report (decode : Decoder) (hstem : IsStem c.path stem) :
    ReportedAs decode c (c.report decode) := by
  have hlabel := defaultLabel_of_isStem hstem
  unfold Candidate.report
  rw [hlabel]
  cases hcontent : c.content with
  | unreadable reason => exact .unreadable hcontent hstem
  | text content =>
    cases hread : readWith decode content with
    | error defect =>
      simp only [hread]
      exact .defective hcontent hread hstem
    | ok t =>
      simp only [hread]
      cases hcheck : t.check with
      | none => exact .passed hcontent hread hcheck hstem
      | some mismatch => exact .failed hcontent hread hcheck hstem

/-- There is only one way to report a test file. -/
theorem ReportedAs.eq (h : ReportedAs decode c r) : c.report decode = r := by
  unfold Candidate.report
  cases h with
  | unreadable hcontent hstem => rw [hcontent, defaultLabel_of_isStem hstem]
  | defective hcontent hread hstem =>
    rw [hcontent, defaultLabel_of_isStem hstem]
    simp only [hread]
  | failed hcontent hread hcheck hstem =>
    rw [hcontent, defaultLabel_of_isStem hstem]
    simp only [hread, hcheck]
    rfl
  | passed hcontent hread hcheck hstem =>
    rw [hcontent, defaultLabel_of_isStem hstem]
    simp only [hread, hcheck]
    rfl

theorem eq_map_of_forall₂_reportedAs {tests : List Candidate} {reports : List Report}
    (h : List.Forall₂ (ReportedAs decode) tests reports) :
    reports = tests.map (·.report decode) := by
  have heq : List.Forall₂ Eq (tests.map (·.report decode)) reports :=
    List.forall₂_map_left_iff.2 (h.imp fun _ _ hreported => hreported.eq)
  rw [List.forall₂_eq_eq_eq] at heq
  exact heq.symm

/-- A test passes if its file can be read, is a test file and the run is as expected. -/
theorem passed_report_iff :
    (c.report decode).failure = none ↔ ∃ content t, c.content = .text content ∧
      readWith decode content = .ok t ∧ t.check = none := by
  unfold Candidate.report
  cases c.content with
  | unreadable reason => simp
  | text content =>
    cases hread : readWith decode content with
    | error defect => simp [hread]
    | ok t => simp [hread]

/-- The line about a test: whether it passed, in green or red if colors are wanted, and its label. -/
def statusText : Bool → Report → Text
  | false, ⟨_, label, none⟩ => "  PASS  ".toList ++ label
  | false, ⟨_, label, some _⟩ => "  FAIL  ".toList ++ label
  | true, ⟨_, label, none⟩ => "  \x1B[32mPASS\x1B[0m  ".toList ++ label
  | true, ⟨_, label, some _⟩ => "  \x1B[31mFAIL\x1B[0m  ".toList ++ label

/-- The lines about what went wrong in a test, under the path of its file. -/
def reasonTexts : Report → List Text
  | ⟨_, _, none⟩ => []
  | ⟨path, _, some reason⟩ =>
    [[], "  --- ".toList ++ path ++ " ---".toList] ++
      (Text.shownLines reason).map ("  ".toList ++ ·)

/-- The last line, with the numbers of tests that passed and failed. -/
def summaryText (colored : Bool) (passed failed : Nat) : Text :=
  let verdict := match colored, failed with
    | false, 0 => "ok".toList
    | false, _ + 1 => "FAILED".toList
    | true, 0 => "\x1B[32mok\x1B[0m".toList
    | true, _ + 1 => "\x1B[31mFAILED\x1B[0m".toList
  "test result: ".toList ++ verdict ++ ". ".toList ++ Nat.toDigits 10 passed ++
    " passed, ".toList ++ Nat.toDigits 10 failed ++ " failed".toList

end Trial

namespace Shell

theorem statusLine_eq (colored : Bool) (r : Trial.Report) :
    statusLine colored r = Trial.statusText colored r := by
  obtain ⟨path, label, failure⟩ := r
  cases colored <;> cases failure <;> rfl

theorem failureLines_eq (r : Trial.Report) : failureLines r = Trial.reasonTexts r := by
  obtain ⟨path, label, failure⟩ := r
  cases failure <;> rfl

theorem summaryLines_eq (colored : Bool) (passed failed : Nat) :
    summaryLines colored passed failed = [[], Trial.summaryText colored passed failed] := by
  rw [summaryLines, Numeral.decimal_eq_toDigits, Numeral.decimal_eq_toDigits]
  cases colored <;> cases failed <;> rfl

theorem testWith_of_none (decode : Trial.Decoder) (path : Text) (colored : Bool)
    (found : Disk.Found) (h : Trial.candidates path found = []) :
    testWith decode path colored found
      = { stderr := "no .test.t14 files found in ".toList ++ path ++ ['\n'], exit := 1 } := by
  have hwords : "no ".toList ++ Trial.suffix ++ " files found in ".toList
      = "no .test.t14 files found in ".toList := by decide
  simp only [testWith, h, List.map_nil, if_pos, hwords, Text.unlines, List.flatMap_singleton]

/-- What running some tests prints and how it ends: every test passed or failed. -/
theorem testWith_of_some (decode : Trial.Decoder) (path : Text) (colored : Bool)
    (found : Disk.Found) (h : Trial.candidates path found ≠ []) :
    let reports := (Trial.candidates path found).map (·.report decode)
    let passed := reports.countP (·.failure.isNone)
    let failed := reports.countP (·.failure.isSome)
    passed + failed = reports.length ∧
      testWith decode path colored found
        = { stderr := (reports.map (Trial.statusText colored) ++
              reports.flatMap Trial.reasonTexts ++
              [[], Trial.summaryText colored passed failed]).flatMap (· ++ ['\n']),
            exit := if failed = 0 then 0 else 1 } := by
  intro reports passed failed
  have hreports : reports ≠ [] := by simpa [reports] using h
  have hsum : passed + failed = reports.length := by
    have hsome : ∀ r : Trial.Report, (decide ¬ r.failure.isNone = true) = r.failure.isSome := by
      intro r
      cases r.failure <;> rfl
    rw [List.length_eq_countP_add_countP (·.failure.isNone)]
    simp only [hsome, passed, failed]
  have hfailed : reports.length - reports.countP (·.passed) = failed := by
    have hpassed : reports.countP (·.passed) = passed := rfl
    omega
  refine ⟨hsum, ?_⟩
  have hstatus : reports.map (statusLine colored) = reports.map (Trial.statusText colored) :=
    List.map_congr_left fun r _ => statusLine_eq colored r
  have hreasons : reports.flatMap failureLines = reports.flatMap Trial.reasonTexts :=
    List.flatMap_congr fun r _ => failureLines_eq r
  simp only [testWith]
  rw [if_neg hreports, hfailed, hstatus, hreasons, summaryLines_eq]
  rfl

/-- Running tests succeeds exactly if there are some and all of them pass. -/
theorem exit_testWith_iff (decode : Trial.Decoder) (path : Text) (colored : Bool)
    (found : Disk.Found) :
    (testWith decode path colored found).exit = 0 ↔ Trial.candidates path found ≠ [] ∧
      ∀ c ∈ Trial.candidates path found, (c.report decode).failure = none := by
  by_cases h : Trial.candidates path found = []
  · rw [testWith_of_none decode path colored found h]
    simp [h]
  · obtain ⟨_, htest⟩ := testWith_of_some decode path colored found h
    rw [htest]
    simp [h]

end Shell

end LineScript
