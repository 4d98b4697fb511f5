import LineScript.Command

/-!
How each command is written. Every structural command has a form of its own, recognised on the line
without the blanks around it; a line in none of these forms is printed.
-/

namespace LineScript.Command

namespace Form

/-- `::exit` or `::quit`. -/
def halt? (s : Text) : Option Command :=
  if s = "::exit".toList ∨ s = "::quit".toList then some .halt else none

/-- `::start[BLOCK]`. -/
def label? (s : Text) : Option Command :=
  ((Text.after? "::start".toList s).bind bracketedName?).map .label

/-- `::end`. -/
def leave? (s : Text) : Option Command := if s = "::end".toList then some .leave else none

/-- `::run[BLOCK]`. -/
def call? (s : Text) : Option Command :=
  ((Text.after? "::run".toList s).bind bracketedName?).map .call

/-- The variable and the trimmed value of `::set [VARIABLE] = VALUE`. -/
def setting? (s : Text) : Option (Text × Text) := do
  let body ← Text.after? "::set [".toList s
  let (target, rest) ← Text.cut? [']'] body
  let value ← Text.after? ['='] (Text.trimStart rest)
  if isName target then some (target, Text.trim value) else none

/-- A setting whose value is neither empty nor a bracketed name. -/
def assign? (s : Text) : Option Command := do
  let (target, value) ← setting? s
  if value = [] ∨ (bracketedName? value).isSome then none else some (.assign target value)

/-- A setting whose value is a bracketed name. -/
def copy? (s : Text) : Option Command := do
  let (target, value) ← setting? s
  let source ← bracketedName? value
  some (.copy target source)

/-- The block after `else`; nothing at all means that there is none. -/
def alternative? (s : Text) : Option (Option Text) :=
  let rest := Text.trim s
  if rest = [] then some none
  else ((Text.after? "else".toList rest).bind (bracketedName? <| Text.trimStart ·)).map some

/-- `::if [LEFT SYMBOL RIGHT]->[BLOCK]`, where ` else [BLOCK]` may follow. -/
def branch? (s : Text) : Option Command := do
  let body ← Text.after? "::if [".toList s
  let (condition, rest) ← Text.cut? "]->[".toList body
  let (whenTrue, rest) ← Text.cut? [']'] rest
  let whenFalse ← alternative? rest
  let (left, comparison, right) ← Comparison.split? condition
  if isName whenTrue then
    some (.branch ⟨Operand.read left, comparison, Operand.read right, whenTrue, whenFalse⟩)
  else none

/-- `::wtf[VALUE]`, whose value is not all blank. -/
def identify? (s : Text) : Option Command := do
  let value ← Text.between? "::wtf[".toList [']'] s
  if Text.isAllBlank value then none else some (.identify (Operand.read value))

/-- The forms of the structural commands. -/
def structural : List (Text → Option Command) :=
  [halt?, label?, leave?, call?, assign?, copy?, branch?, identify?]

end Form

/-- The structural command in one of its forms. -/
def structural? (s : Text) : Option Command :=
  Form.structural.findSome? fun form => form s

/-- Prints the line, which keeps its blanks. -/
def ofTemplate (line : Template) : Command := if line.hasConversions then convert line else say line

/-- A line that is all blank or that begins with `#`. -/
def isComment (line : Text) : Bool := Text.isAllBlank line || line.head? = some '#'

/-- The command on a line; a comment has none. -/
def read? (line : Text) : Option Command :=
  if isComment line then none
  else some ((structural? (Text.trim line)).getD (ofTemplate (Template.read line)))

end LineScript.Command
