import LineScript.Excerpt
import LineScript.Shell.Request
import LineScript.Trial.Suite

/-!
What the program answers to a request, given what the path in the request leads to.
-/

namespace LineScript.Shell

structure Response where
  stdout : Text := []
  stderr : Text := []
  exit : Nat := 0
  deriving DecidableEq, Repr

/-- The text inside a pair of double quotes around it, if there is one. -/
def unquoted (s : Text) : Text := (Text.between? ['"'] ['"'] s).getD s

/-- What the name of a script file ends with, after a dot. -/
def scriptExtension : Text := "t14".toList

/-- Why a script could not be loaded. -/
inductive LoadError where
  | notFound
  | wrongExtension
  | unreadable (reason : Text)
  deriving DecidableEq, Repr

def LoadError.message (path : Text) : LoadError → Text
  | notFound => "file named ".toList ++ path ++ " could not be found".toList
  | wrongExtension =>
    "file named ".toList ++ path ++ " does not end with extension \".".toList ++ scriptExtension ++
      ['"']
  | unreadable reason => "cannot read '".toList ++ path ++ "': ".toList ++ reason

/-- The source of a script, from what its path leads to. -/
def load (path : Text) : Disk.Found → Except LoadError Text
  | .nothing | .folder _ => .error .notFound
  | .file content =>
    if Disk.fileExtension? (Disk.fileName path) ≠ some scriptExtension then .error .wrongExtension
    else
      match content with
      | .text source => .ok source
      | .unreadable reason => .error (.unreadable reason)

/-- The blocks of a script with the numbers of their lines, counted from one. -/
def blockLines (script : Script) : List Text :=
  (Blocks.ofScript script).entries.map fun b =>
    b.name ++ " (line ".toList ++ Numeral.decimal (b.line + 1) ++ [')']

/-- Whether a script has an entry block. -/
def checkScript (file : Text) (script : Script) : Response :=
  let blocks := Blocks.ofScript script
  match blocks.line? entryBlock with
  | some _ =>
    { stderr := Text.unlines ["ok: ".toList ++ file ++ " has ".toList ++
        Numeral.decimal blocks.entries.length ++ " block(s) and an entry point".toList] }
  | none =>
    { stderr := Text.unlines (Failure.report { cause := .noEntry } script file), exit := 1 }

/-- Runs a script; what it printed before a failure is kept. -/
def runScript (file : Text) (script : Script) (limit : Nat) (quiet : Bool) : Response :=
  let session : Session := { script, limit }
  let (outcome, chunks, _) := session.run Sink.gather []
  let stdout := if quiet then [] else gathered chunks
  match outcome with
  | .ok _ => { stdout }
  | .error failure => { stdout, stderr := Text.unlines (failure.report script file), exit := 1 }

def run (request : Request) (found : Disk.Found) : Response :=
  let file := unquoted request.operand
  match load file found with
  | .error e => { stderr := Text.unlines ["error: ".toList ++ e.message file], exit := 1 }
  | .ok source =>
    let script := Script.ofSource source 0
    if .listBlocks ∈ request.flags then { stdout := Text.unlines (blockLines script) }
    else if .check ∈ request.flags then checkScript file script
    else runScript file script (request.limit.getD defaultLimit) (decide (.quiet ∈ request.flags))

/-- The lines that a single line of a script prints by converting, without any variables. -/
def convertedLines? (expression : Text) : Option (List Text) :=
  match Command.read? expression with
  | some (.convert line) => some [line.render Converter.standard {}]
  | some (.identify value) => some (Converter.standard.identify (Store.resolve {} value))
  | _ => none

def convert (expression : Text) : Response :=
  match convertedLines? expression with
  | some lines => { stdout := Text.unlines lines }
  | none =>
    { stderr := Text.unlines
        ["error: '".toList ++ expression ++ "' contains no conversion token".toList],
      exit := 1 }

inductive Color where
  | green
  | red
  deriving DecidableEq, Repr

def Color.code : Color → Text
  | green => "32".toList
  | red => "31".toList

/-- A word in a color, or plain. -/
def paint (colored : Bool) (color : Color) (word : Text) : Text :=
  if colored then "\x1B[".toList ++ color.code ++ ['m'] ++ word ++ "\x1B[0m".toList else word

/-- A line that says whether a test passed. -/
def statusLine (colored : Bool) (r : Trial.Report) : Text :=
  let status := if r.passed then paint colored .green "PASS".toList
    else paint colored .red "FAIL".toList
  "  ".toList ++ status ++ "  ".toList ++ r.label

/-- What went wrong in a test. -/
def failureLines (r : Trial.Report) : List Text :=
  match r.failure with
  | none => []
  | some reason =>
    [] :: ("  --- ".toList ++ r.path ++ " ---".toList) ::
      (Text.shownLines reason).map ("  ".toList ++ ·)

/-- How many tests passed and failed. -/
def summaryLines (colored : Bool) (passed failed : Nat) : List Text :=
  let verdict := if failed = 0 then paint colored .green "ok".toList
    else paint colored .red "FAILED".toList
  [[], "test result: ".toList ++ verdict ++ ". ".toList ++ Numeral.decimal passed ++
    " passed, ".toList ++ Numeral.decimal failed ++ " failed".toList]

/-- Runs the tests that a path leads to, where `decode` reads their headers. -/
def testWith (decode : Trial.Decoder) (path : Text) (colored : Bool) (found : Disk.Found) :
    Response :=
  let reports := (Trial.candidates path found).map (·.report decode)
  if reports = [] then
    { stderr := Text.unlines ["no ".toList ++ Trial.suffix ++ " files found in ".toList ++ path],
      exit := 1 }
  else
    let passed := reports.countP (·.passed)
    let failed := reports.length - passed
    { stderr := Text.unlines (reports.map (statusLine colored) ++ reports.flatMap failureLines ++
        summaryLines colored passed failed),
      exit := if failed = 0 then 0 else 1 }

def test (path : Text) (colored : Bool) (found : Disk.Found) : Response :=
  testWith Trial.Expectation.ofHeader path colored found

/-- The path that a request is about. -/
def Request.path? (request : Request) : Option Text :=
  match request.verb with
  | .run => some (unquoted request.operand)
  | .convert => none
  | .test => some request.operand

def Request.answer (request : Request) (found : Disk.Found) : Response :=
  match request.verb with
  | .run => run request found
  | .convert => convert request.operand
  | .test => test request.operand (decide (.noColor ∉ request.flags)) found

def usage : List Text :=
  ["T14 scripting language interpreter".toList, [],
    "Usage: t14 [--no-color] [-v] run [--max-depth N] [--check] [--list-blocks] [-q] FILE".toList,
    "       t14 [--no-color] [-v] convert EXPRESSION".toList,
    "       t14 [--no-color] [-v] test PATH".toList]

def Stop.response : Stop → Response
  | refused => { stderr := Text.unlines usage, exit := 2 }
  | help => { stdout := Text.unlines usage }
  | version => { stdout := Text.unlines ["t14 0.1.0".toList] }

/-- The answer to a command line, where `find` says what a path leads to. -/
def respond (find : Text → Disk.Found) (words : List Text) : Response :=
  match Request.read words with
  | .error stop => stop.response
  | .ok request => request.answer ((request.path?.map find).getD .nothing)

end LineScript.Shell
