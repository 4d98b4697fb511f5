import LineScript.Command

/-!
Each structural command in one spelling, which reading it gives back.
-/

namespace LineScript

def Branch.print (b : Branch) : Text :=
  "::if [".toList ++ b.left.print ++ b.comparison.spaced ++ b.right.print ++ "]->[".toList ++
    b.whenTrue ++ [']'] ++
    match b.whenFalse with
    | none => []
    | some block => " else [".toList ++ block ++ [']']

/-- The spelling of a command; a line to be printed is spelt as it was written. -/
def Command.print : Command → Text
  | halt => "::exit".toList
  | label block => "::start[".toList ++ block ++ [']']
  | leave => "::end".toList
  | call block => "::run[".toList ++ block ++ [']']
  | assign target value => "::set [".toList ++ target ++ "] = ".toList ++ value
  | copy target source => "::set [".toList ++ target ++ "] = [".toList ++ source ++ [']']
  | branch b => b.print
  | identify value => "::wtf[".toList ++ value.print ++ [']']
  | convert line | say line => line.source

end LineScript
