import LineScript.Proofs.TestReports
import Mathlib.Data.Char
import Mathlib.Data.List.Lex
import Mathlib.Data.List.Permutation
import Mathlib.Data.List.Sort

/-!
Which tests a folder has and what comes of running them. Main statement: the tests are all files
below the folder with the ending of test files, each once and in the order of their paths, however
the folders are listed; running them reports them in this order and succeeds exactly if there are
some and all of them pass, whatever reads their headers.
-/

namespace LineScript

theorem Text.sortsBefore_iff (s t : Text) : Text.sortsBefore s t = true ↔ s < t := by
  rw [Text.sortsBefore, List.lex_eq_true_iff_lex]
  constructor
  · exact List.Lex.imp (fun c d h => of_decide_eq_true h) s t
  · exact List.Lex.imp (fun c d h => decide_eq_true h) s t

/-- Paths are compared name by name. -/
theorem lex_sortsBefore_iff (names names' : List Text) :
    List.lex names names' Text.sortsBefore = true ↔ names < names' := by
  rw [List.lex_eq_true_iff_lex]
  constructor
  · exact List.Lex.imp (fun s t h => (Text.sortsBefore_iff s t).1 h) names names'
  · exact List.Lex.imp (fun s t h => (Text.sortsBefore_iff s t).2 h) names names'

namespace Trial

open Disk (Listing Content)

variable {root : Text} {l l' : Listing}

/-- In the order of their paths, each path once. -/
def InOrder (found : List (List Text × Content)) : Prop :=
  found.Pairwise fun file later => file.1 < later.1

theorem inOrder_mergeSort {found : List (List Text × Content)}
    (h : (found.map Prod.fst).Nodup) :
    InOrder (found.mergeSort fun a b => !List.lex b.1 a.1 Text.sortsBefore) := by
  have hle (a b : List Text × Content) :
      (!List.lex b.1 a.1 Text.sortsBefore) = true ↔ a.1 ≤ b.1 := by
    rw [Bool.not_eq_true', ← Bool.not_eq_true, lex_sortsBefore_iff, not_lt]
  have hsorted : (found.mergeSort fun a b => !List.lex b.1 a.1 Text.sortsBefore).Pairwise
      fun a b => (!List.lex b.1 a.1 Text.sortsBefore) = true := by
    refine List.pairwise_mergeSort ?_ ?_ found
    · intro a b c hab hbc
      exact (hle a c).2 (((hle a b).1 hab).trans ((hle b c).1 hbc))
    · intro a b
      rw [Bool.or_eq_true, hle, hle]
      exact le_total a.1 b.1
  have hperm := List.mergeSort_perm found fun a b => !List.lex b.1 a.1 Text.sortsBefore
  have hnodup := (hperm.map Prod.fst).nodup_iff.2 h
  refine (hsorted.and (List.pairwise_map.1 hnodup)).imp ?_
  rintro a b ⟨hab, hne⟩
  exact lt_of_le_of_ne ((hle a b).1 hab) hne

/-- The tests of a folder are the files below it with the ending of test files, in order. -/
theorem exists_inOrder (root : Text) (htree : l.IsTree) :
    ∃ found, discover root l = found.map (fun file => ⟨Disk.extend root file.1, file.2⟩) ∧
      InOrder found ∧ ∀ names content, (names, content) ∈ found ↔
        l.Leads names content ∧ suffix <:+ Disk.extend root names := by
  have hperm := Disk.Search.run_folder_perm
    (fun names => (Text.before? suffix (Disk.extend root names)).isSome) l
  have hnodup : ((Disk.Search.run (fun names =>
      (Text.before? suffix (Disk.extend root names)).isSome) { pending := [([], l)] }).map
        Prod.fst).Nodup := by
    refine (hperm.map Prod.fst).nodup_iff.2 ?_
    exact (Listing.nodup_files htree).sublist (List.filter_sublist.map Prod.fst)
  refine ⟨_, rfl, inOrder_mergeSort hnodup, ?_⟩
  intro names content
  rw [List.mem_mergeSort, hperm.mem_iff, List.mem_filter, Listing.mem_files_iff htree]
  refine and_congr_right fun _ => ?_
  rw [Option.isSome_iff_exists]
  exact exists_congr fun front => Text.before?_eq_some.trans eq_comm

/-- Lists of files in order are equal if they have the same files. -/
theorem InOrder.eq_of_mem_iff {found found' : List (List Text × Content)} (h : InOrder found)
    (h' : InOrder found') (hmem : ∀ file, file ∈ found ↔ file ∈ found') : found = found' := by
  have hirrefl : Std.Irrefl fun file later : List Text × Content => file.1 < later.1 :=
    ⟨fun file => lt_irrefl file.1⟩
  have hantisymm : Std.Antisymm fun file later : List Text × Content => file.1 < later.1 :=
    ⟨fun file later hlt hgt => (lt_asymm hlt hgt).elim⟩
  exact List.Pairwise.eq_of_mem_iff h h' hmem

/-- The order of the listings does not show in the tests. -/
theorem discover_of_sameTree (root : Text) (htree : l.IsTree) (htree' : l'.IsTree)
    (hsame : l.SameTree l') : discover root l' = discover root l := by
  obtain ⟨found, hfound, horder, hmem⟩ := exists_inOrder root htree
  obtain ⟨found', hfound', horder', hmem'⟩ := exists_inOrder root htree'
  rw [hfound, hfound', horder'.eq_of_mem_iff horder]
  rintro ⟨names, content⟩
  rw [hmem, hmem']
  refine and_congr_left fun _ => ⟨?_, ?_⟩
  · intro hleads
    exact hleads.sameTree hsame.symm
  · intro hleads
    exact hleads.sameTree hsame

theorem mem_discover_iff (htree : l.IsTree) {c : Candidate} :
    c ∈ discover root l ↔ ∃ names, l.Leads names c.content ∧ c.path = Disk.extend root names ∧
      suffix <:+ c.path := by
  obtain ⟨found, hfound, _, hmem⟩ := exists_inOrder root htree
  rw [hfound, List.mem_map]
  constructor
  · rintro ⟨⟨names, content⟩, hfile, rfl⟩
    obtain ⟨hleads, hsuffix⟩ := (hmem names content).1 hfile
    exact ⟨names, hleads, rfl, hsuffix⟩
  · rintro ⟨names, hleads, hpath, hsuffix⟩
    rw [hpath] at hsuffix
    exact ⟨(names, c.content), (hmem _ _).2 ⟨hleads, hsuffix⟩, by rw [← hpath]⟩

/-- The paths of the tests ascend name by name. -/
theorem pairwise_components (root : Text) (htree : l.IsTree) :
    (discover root l).Pairwise fun c later =>
      Disk.components c.path < Disk.components later.path := by
  obtain ⟨found, hfound, horder, hmem⟩ := exists_inOrder root htree
  have hcomponents : ∀ file ∈ found,
      Disk.components (Disk.extend root file.1) = Disk.components root ++ file.1 := by
    rintro ⟨names, content⟩ hfile
    obtain ⟨hleads, _⟩ := (hmem names content).1 hfile
    refine Disk.components_extend ?_ (hleads.isEntryName htree)
    rintro rfl
    exact Listing.not_leads_nil hleads
  rw [hfound, List.pairwise_map]
  refine List.Pairwise.imp_of_mem ?_ horder
  intro file later hfile hlater hlt
  rw [hcomponents file hfile, hcomponents later hlater]
  exact List.Lex.append_left _ hlt _

/-- Every test of a folder can be reported: its path has the ending of test files behind a slash. -/
theorem forall₂_reportedAs (decode : Decoder) (root : Text) (htree : l.IsTree) :
    List.Forall₂ (ReportedAs decode) (discover root l)
      ((discover root l).map (·.report decode)) := by
  rw [List.forall₂_map_right_iff, List.forall₂_same]
  intro c hc
  obtain ⟨names, _, hpath, hsuffix⟩ := (mem_discover_iff htree).1 hc
  obtain ⟨stem, hstem⟩ := exists_isStem (hpath ▸ Disk.slash_mem_extend root names) hsuffix
  exact reportedAs_report decode hstem

end Trial

/-- Tests are found completely and in order, and running them tells whether all pass. The tests of a
folder are the files below it, at any depth, whose paths have the ending of test files; each path
occurs once and leads to its file, and the paths ascend name by name. However the folders are
listed, the tests are the same. However headers are read, running the tests succeeds exactly if
there are some and each of them can be read, is a test file and passes. What is printed goes through
the tests in this order: first a line for each with its status and its label, then what went wrong
in those that failed, and last the numbers of those that passed and failed, which add up to the
number of all. -/
theorem tests_are_discovered_in_order (root : Text) (l : Disk.Listing) (htree : l.IsTree) :
    let tests := Trial.discover root l
    (∀ c : Trial.Candidate, c ∈ tests ↔ ∃ names, l.Leads names c.content ∧
      c.path = Disk.extend root names ∧ ".test.t14".toList <:+ c.path) ∧
    (tests.map (·.path)).Nodup ∧
    (tests.map fun c => Disk.components c.path).Pairwise (· < ·) ∧
    (∀ here : Disk.Listing, here.find root = .folder l →
      ∀ c ∈ tests, here.find c.path = .file c.content) ∧
    (∀ l' : Disk.Listing, l'.IsTree → l.SameTree l' → Trial.discover root l' = tests) ∧
    ∀ (decode : Trial.Decoder) (colored : Bool),
      let response := Shell.testWith decode root colored (.folder l)
      (response.exit = 0 ↔ tests ≠ [] ∧ ∀ c ∈ tests, ∃ content t, c.content = .text content ∧
        Trial.readWith decode content = .ok t ∧ t.check = none) ∧
      response.stdout = [] ∧
      (tests = [] →
        response.stderr = "no .test.t14 files found in ".toList ++ root ++ ['\n']) ∧
      (tests ≠ [] → ∃ reports passed failed,
        List.Forall₂ (Trial.ReportedAs decode) tests reports ∧
        passed = reports.countP (·.failure.isNone) ∧
        failed = reports.countP (·.failure.isSome) ∧
        passed + failed = tests.length ∧
        response.stderr = (reports.map (Trial.statusText colored) ++
          reports.flatMap Trial.reasonTexts ++
          [[], Trial.summaryText colored passed failed]).flatMap (· ++ ['\n'])) := by
  intro tests
  have hordered := Trial.pairwise_components root htree
  refine ⟨fun c => Trial.mem_discover_iff htree, ?_, List.pairwise_map.2 hordered, ?_, ?_, ?_⟩
  · refine List.pairwise_map.2 (hordered.imp ?_)
    intro c later hlt hpath
    rw [hpath] at hlt
    exact lt_irrefl _ hlt
  · intro here hfind c hc
    obtain ⟨names, hleads, hpath, _⟩ := (Trial.mem_discover_iff htree).1 hc
    rw [hpath]
    exact Disk.find_extend hfind htree hleads
  · intro l' htree' hsame
    exact Trial.discover_of_sameTree root htree htree' hsame
  · intro decode colored response
    have hexit := Shell.exit_testWith_iff decode root colored (.folder l)
    simp only [Trial.passed_report_iff] at hexit
    by_cases hnone : tests = []
    · have hresponse := Shell.testWith_of_none decode root colored (.folder l) hnone
      refine ⟨hexit, ?_, ?_, fun hne => (hne hnone).elim⟩
      · simp only [response, hresponse]
      · intro _
        simp only [response, hresponse]
    · obtain ⟨hsum, hresponse⟩ := Shell.testWith_of_some decode root colored (.folder l) hnone
      refine ⟨hexit, ?_, fun hempty => (hnone hempty).elim, ?_⟩
      · simp only [response, hresponse]
      · intro _
        rw [List.length_map] at hsum
        refine ⟨_, _, _, Trial.forall₂_reportedAs decode root htree, rfl, rfl, hsum, ?_⟩
        simp only [response, hresponse]
        rfl

/-- A test that passes, with a description. -/
def passingTest : Disk.Content :=
  .text "---\ndescription = \"greets\"\n---\n::start[main]\nhey".toList

/-- A test that fails, without a description. -/
def failingTest : Disk.Content :=
  .text "---\nexpect_output = \"ho\"\n---\n::start[main]\nhey".toList

/-- A test in a folder with the ending of test files, and one beside that folder. -/
def nestedTests : Disk.Listing :=
  .folder "x.test.t14".toList (.file "b.test.t14".toList failingTest .nil)
    (.file "a.test.t14".toList passingTest .nil)

def relistedTests : Disk.Listing :=
  .file "a.test.t14".toList passingTest
    (.folder "x.test.t14".toList (.file "b.test.t14".toList failingTest .nil) .nil)

def passingTests : Disk.Listing := .file "a.test.t14".toList passingTest .nil

theorem sameTree_relistedTests : nestedTests.SameTree relistedTests := by
  have hinside : (Disk.Listing.file "b.test.t14".toList failingTest .nil).SameTree
      (.file "b.test.t14".toList failingTest .nil) := by
    refine .mk fun name => ?_
    rw [Disk.Listing.entry_file]
    split
    · exact .file
    · exact .nothing
  refine .mk fun name => ?_
  rw [nestedTests, relistedTests, Disk.Listing.entry_folder, Disk.Listing.entry_file,
    Disk.Listing.entry_file, Disk.Listing.entry_folder]
  by_cases hname : "x.test.t14".toList = name
  · have hother : "a.test.t14".toList ≠ name := hname ▸ by decide
    rw [if_pos hname, if_neg hother, if_pos hname]
    exact .folder hinside
  · rw [if_neg hname, if_neg hname]
    split
    · exact .file
    · exact .nothing

theorem discover_nestedTests :
    Trial.discover "t".toList nestedTests = [⟨"t/a.test.t14".toList, passingTest⟩,
      ⟨"t/x.test.t14/b.test.t14".toList, failingTest⟩] := by
  cbv

theorem nestedTests_are_discovered :
    nestedTests.IsTree ∧ relistedTests.IsTree ∧ nestedTests.SameTree relistedTests ∧
      Trial.discover "t".toList relistedTests = Trial.discover "t".toList nestedTests ∧
      ⟨"t/x.test.t14/b.test.t14".toList, failingTest⟩ ∈ Trial.discover "t".toList nestedTests ∧
      (Shell.testWith Trial.Expectation.ofHeader "t".toList false (.folder nestedTests)).exit ≠ 0 ∧
      (Shell.testWith Trial.Expectation.ofHeader "t".toList false (.folder nestedTests)).stderr
        = Text.unlines ["  PASS  greets".toList, "  FAIL  b".toList, [],
          "  --- t/x.test.t14/b.test.t14 ---".toList, "  output differs".toList,
          "    expected:".toList, "      ho".toList, "    actual:".toList, "      hey".toList, [],
          "test result: FAILED. 1 passed, 1 failed".toList] ∧
      passingTests.IsTree ∧
      (Shell.testWith Trial.Expectation.ofHeader "t".toList false (.folder passingTests)).exit
        = 0 := by
  have ha : Disk.IsEntryName "a.test.t14".toList := ⟨by decide, by decide, by decide, by decide⟩
  have hb : Disk.IsEntryName "b.test.t14".toList := ⟨by decide, by decide, by decide, by decide⟩
  have hx : Disk.IsEntryName "x.test.t14".toList := ⟨by decide, by decide, by decide, by decide⟩
  have htree : nestedTests.IsTree :=
    .folder hx (by decide) (.file hb (by decide) .nil) (.file ha (by decide) .nil)
  have hrelisted : relistedTests.IsTree :=
    .file ha (by decide) (.folder hx (by decide) (.file hb (by decide) .nil) .nil)
  have hpassing : passingTests.IsTree := .file ha (by decide) .nil
  obtain ⟨hmem, _, _, _, horder, hrun⟩ :=
    tests_are_discovered_in_order "t".toList nestedTests htree
  have htest : ⟨"t/x.test.t14/b.test.t14".toList, failingTest⟩ ∈
      Trial.discover "t".toList nestedTests :=
    (hmem _).2 ⟨["x.test.t14".toList, "b.test.t14".toList], .deeper rfl (.here rfl), by decide,
      by decide⟩
  obtain ⟨hexit, _, _, hprinted⟩ := hrun Trial.Expectation.ofHeader false
  obtain ⟨reports, passed, failed, hreports, rfl, rfl, _, hstderr⟩ :=
    hprinted (List.ne_nil_of_mem htest)
  have hreports : reports = [⟨"t/a.test.t14".toList, "greets".toList, none⟩,
      ⟨"t/x.test.t14/b.test.t14".toList, "b".toList,
        some "output differs\n  expected:\n    ho\n  actual:\n    hey".toList⟩] := by
    rw [Trial.eq_map_of_forall₂_reportedAs hreports, discover_nestedTests]
    decide +kernel
  simp only [← Trial.passed_report_iff] at hexit
  rw [discover_nestedTests] at hexit
  obtain ⟨hmemPassing, _, _, _, _, hrunPassing⟩ :=
    tests_are_discovered_in_order "t".toList passingTests hpassing
  have hfound : ⟨"t/a.test.t14".toList, passingTest⟩ ∈ Trial.discover "t".toList passingTests :=
    (hmemPassing _).2 ⟨["a.test.t14".toList], .here rfl, by decide, by decide⟩
  refine ⟨htree, hrelisted, sameTree_relistedTests,
    horder relistedTests hrelisted sameTree_relistedTests, htest, ?_, ?_, hpassing, ?_⟩
  · exact mt hexit.1 (by decide +kernel)
  · rw [hstderr, hreports]
    decide +kernel
  · refine (hrunPassing Trial.Expectation.ofHeader false).1.2 ⟨List.ne_nil_of_mem hfound, ?_⟩
    intro c hc
    obtain ⟨names, hleads, _⟩ := (hmemPassing c).1 hc
    have hfile := (Disk.Listing.mem_files_iff hpassing).2 hleads
    have hcontent : c.content = passingTest := (Prod.mk.inj (List.mem_singleton.1 hfile)).2
    exact ⟨_, ⟨{ description := some "greets".toList }, "::start[main]\nhey".toList⟩, hcontent,
      by decide +kernel, by decide +kernel⟩

end LineScript
