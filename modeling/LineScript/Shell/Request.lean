import LineScript.Numeral

/-!
What the arguments of the command line ask for. The first argument that is no option names a
command; one that names none is a script to run, or a line to convert if it begins with two colons.
-/

namespace LineScript.Shell

inductive Flag where
  | noColor
  | verbose
  | check
  | listBlocks
  | quiet
  | help
  | version
  deriving DecidableEq, Repr

inductive Verb where
  | run
  | convert
  | test
  deriving DecidableEq, Repr

/-- Why arguments are not carried out. -/
inductive Stop where
  /-- They make no sense. -/
  | refused
  | help
  | version
  deriving DecidableEq, Repr

/-- What one part of the arguments, before or after the command's name, has said so far. -/
structure Given where
  flags : List Flag := []
  limit : Option Nat := none
  operand : Option Text := none
  deriving DecidableEq, Repr

structure Request where
  verb : Verb
  /-- The script to run, the line to convert or the path of the tests. -/
  operand : Text
  flags : List Flag
  limit : Option Nat
  deriving DecidableEq, Repr

def longFlags : List (Text × Flag) :=
  [("no-color".toList, .noColor), ("verbose".toList, .verbose), ("check".toList, .check),
    ("list-blocks".toList, .listBlocks), ("quiet".toList, .quiet), ("help".toList, .help),
    ("version".toList, .version)]

def shortFlags : List (Char × Flag) :=
  [('v', .verbose), ('q', .quiet), ('h', .help), ('V', .version)]

/-- The flags before the command's name. -/
def leadingFlags : List Flag := [.noColor, .verbose, .help, .version]

def Verb.flags : Verb → List Flag
  | run => [.noColor, .verbose, .check, .listBlocks, .quiet, .help]
  | convert | test => [.noColor, .verbose, .help]

def verbs : List (Text × Verb) :=
  [("run".toList, .run), ("convert".toList, .convert), ("test".toList, .test)]

def helpWord : Text := "help".toList

/-- How many calls inside one another a user may allow. -/
def greatestLimit : Nat := 1024

/-- A limit in decimal digits, which a plus sign may precede. -/
def limit? (s : Text) : Option Nat :=
  (Numeral.read? 10 ((Text.after? ['+'] s).getD s)).filter fun n => 1 ≤ n && n ≤ greatestLimit

namespace Given

/-- Notes a flag, which may be given once where it is allowed. -/
def raise (allowed : List Flag) (g : Given) : Option Flag → Except Stop Given
  | none => .error .refused
  | some flag =>
    if flag ∉ allowed ∨ flag ∈ g.flags then .error .refused
    else
      match flag with
      | .help => .error .help
      | .version => .error .version
      | flag => .ok { g with flags := flag :: g.flags }

/-- Notes the flags of the letters after one hyphen. -/
def raiseLetters (allowed : List Flag) (g : Given) (letters : Text) : Except Stop Given :=
  letters.foldlM (fun g c => g.raise allowed (shortFlags.lookup c)) g

/-- Notes the limit, which may be given once. -/
def bound (g : Given) (value : Text) : Except Stop Given :=
  match g.limit, limit? value with
  | none, some n => .ok { g with limit := some n }
  | _, _ => .error .refused

/-- Notes the operand, which may be given once. -/
def fill (g : Given) (word : Text) : Except Stop Given :=
  match g.operand with
  | none => .ok { g with operand := some word }
  | some _ => .error .refused

end Given

/-- How an argument is to be taken. -/
inductive Word where
  /-- Two hyphens: everything after them is an operand. -/
  | rest
  | long (name : Text)
  | short (letters : Text)
  | plain (word : Text)
  deriving DecidableEq, Repr

def Word.of : Text → Word
  | ['-', '-'] => rest
  | '-' :: '-' :: name => long name
  | '-' :: c :: letters => short (c :: letters)
  | word => plain word

/-- The value in an option that has it attached, as in `--max-depth=5`. -/
def attachedLimit? (name : Text) : Option Text := Text.after? "max-depth=".toList name

/-- The arguments after the name of a command. -/
def readVerb (verb : Verb) : List Text → Given → Except Stop Given
  | [], g => .ok g
  | word :: words, g =>
    match Word.of word with
    | .rest => words.foldlM Given.fill g
    | .plain word => do readVerb verb words (← g.fill word)
    | .short letters => do readVerb verb words (← g.raiseLetters verb.flags letters)
    | .long name =>
      if verb = .run ∧ name = "max-depth".toList then
        match words with
        | [] => .error .refused
        | value :: words => do readVerb verb words (← g.bound value)
      else
        match verb, attachedLimit? name with
        | .run, some value => do readVerb verb words (← g.bound value)
        | _, _ => do readVerb verb words (← g.raise verb.flags (longFlags.lookup name))

/-- The arguments after `help`: at most the name of one command. -/
def readHelp : List Text → Stop
  | [] => .help
  | [word] => if word = helpWord ∨ (verbs.lookup word).isSome then .help else .refused
  | _ => .refused

/-- All arguments, once a command is named among them. -/
def readLeading : List Text → Given → Except Stop Request
  | [], _ => .error .refused
  | word :: words, g =>
    match Word.of word with
    | .rest => .error .refused
    | .short letters => do readLeading words (← g.raiseLetters leadingFlags letters)
    | .long name => do readLeading words (← g.raise leadingFlags (longFlags.lookup name))
    | .plain word =>
      if word = helpWord then .error (readHelp words)
      else
        match verbs.lookup word with
        | none => .error .refused
        | some verb => do
          let given ← readVerb verb words {}
          match given.operand with
          | none => .error .refused
          | some operand => .ok ⟨verb, operand, g.flags ++ given.flags, given.limit⟩

/-- Puts the name of a command before the first argument that is no option, unless it names one. -/
def named : List Text → List Text
  | [] => []
  | word :: words =>
    if word.head? = some '-' then word :: named words
    else if word = helpWord ∨ (verbs.lookup word).isSome then word :: words
    else if (Text.after? "::".toList word).isSome then "convert".toList :: word :: words
    else "run".toList :: word :: words

/-- The request that a command line makes. -/
def Request.read (words : List Text) : Except Stop Request := readLeading (named words) {}

end LineScript.Shell
