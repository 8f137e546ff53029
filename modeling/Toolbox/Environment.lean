/-!
# Surroundings of a call

What a program finds when it starts: variables, files, and where its output goes.
-/

namespace Toolbox

/-- What a path leads to. -/
inductive FileState where
  | missing
  | directory
  | octets (content : List UInt8)
  deriving DecidableEq, Repr

/-- What a program finds around it when it starts. -/
structure Environment where
  /-- The value of a variable, if it is set. -/
  lookup : String → Option String
  /-- The home directory of the user's account, which counts when `HOME` is not set. -/
  accountHome : Option String := none
  /-- What lies at each path. -/
  file : String → FileState
  /-- Whether the output goes to a terminal. -/
  terminal : Bool := false

end Toolbox
