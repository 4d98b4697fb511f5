import LineScript.Disk
import LineScript.Trial.Check

/-!
Running the test files of a folder. They are found at any depth and run in the order of their paths,
name by name, however the folders are listed.
-/

namespace LineScript.Trial

/-- What the name of a test file ends with. -/
def suffix : Text := ".test.t14".toList

/-- A file to be run. -/
structure Candidate where
  path : Text
  content : Disk.Content
  deriving DecidableEq, Repr

/-- The test files below a folder at the path `root`. -/
def discover (root : Text) (listing : Disk.Listing) : List Candidate :=
  let isTest names := (Text.before? suffix (Disk.extend root names)).isSome
  let found := Disk.Search.run isTest { pending := [([], listing)] }
  let sorted := found.mergeSort fun a b => !List.lex b.1 a.1 Text.sortsBefore
  sorted.map fun (names, content) => ⟨Disk.extend root names, content⟩

/-- The files to be run for a path. -/
def candidates (path : Text) : Disk.Found → List Candidate
  | .nothing => []
  | .file content => [⟨path, content⟩]
  | .folder listing => discover path listing

/-- A file that was run; nothing is amiss if its test passed. -/
structure Report where
  path : Text
  label : Text
  failure : Option Text
  deriving DecidableEq, Repr

/-- The name of a file without the ending of test files. -/
def defaultLabel (path : Text) : Text :=
  let name := Disk.fileName path
  (Text.before? suffix name).getD name

/-- Runs the test in a file, whose header `decode` reads. -/
def Candidate.report (decode : Decoder) (c : Candidate) : Report :=
  match c.content with
  | .unreadable reason =>
    ⟨c.path, defaultLabel c.path, some ("cannot read file: ".toList ++ reason)⟩
  | .text content =>
    match readWith decode content with
    | .error defect => ⟨c.path, defaultLabel c.path, some defect.message⟩
    | .ok t =>
      ⟨c.path, t.expected.description.getD (defaultLabel c.path), t.check.map (·.message)⟩

def Report.passed (r : Report) : Bool := r.failure.isNone

end LineScript.Trial
