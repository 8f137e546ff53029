import Toolbox.Text.Affix
import Toolbox.Text.Control

/-!
# Refusals

Why a command line is not understood, and the one line that says so.
-/

namespace Toolbox.Surface

open Text

/-- Why a command line is refused. Parameters are named as messages show them. -/
inductive Refusal where
  /-- A word that is no flag here, or one too many. -/
  | unexpectedArgument (word : String)
  /-- A word where only a subcommand can stand. -/
  | unrecognizedSubcommand (word : String)
  /-- A value handed to a flag that takes none. -/
  | unexpectedValue (value parameter : String)
  /-- A parameter is left without its value. -/
  | missingValue (parameter : String)
  /-- A value that the parameter does not admit. -/
  | invalidValue (value parameter : String)
  /-- A parameter that can be given once is given again. -/
  | repeatedArgument (parameter : String)
  /-- Parameters that cannot be given together. -/
  | conflict (parameter : String) (others : List String)
  /-- Required parameters are not given. -/
  | missingArguments
  /-- A command that does nothing by itself is called alone. -/
  | missingSubcommand (path : String)
  deriving DecidableEq, Repr

/-- What a message quotes, without its control sequences. -/
def quote (s : String) : String :=
  "'" ++ Control.plainStream s ++ "'"

def Refusal.message : Refusal → String
  | unexpectedArgument word => "error: unexpected argument " ++ quote word ++ " found"
  | unrecognizedSubcommand word => "error: unrecognized subcommand " ++ quote word
  | unexpectedValue value parameter =>
    "error: unexpected value " ++ quote value ++ " for " ++ quote parameter ++
      " found; no more were expected"
  | missingValue parameter =>
    "error: a value is required for " ++ quote parameter ++ " but none was supplied"
  | invalidValue value parameter =>
    "error: invalid value " ++ quote value ++ " for " ++ quote parameter
  | repeatedArgument parameter =>
    "error: the argument " ++ quote parameter ++ " cannot be used multiple times"
  | conflict parameter [other] =>
    "error: the argument " ++ quote parameter ++ " cannot be used with " ++ quote other
  | conflict parameter _ => "error: the argument " ++ quote parameter ++ " cannot be used with:"
  | missingArguments => "error: the following required arguments were not provided:"
  | missingSubcommand path =>
    "error: " ++ quote path ++ " requires a subcommand but one was not provided"

/-- Why reading a command line comes to an end before anything is run. -/
inductive Stop where
  /-- A page was asked for: help, or the version. -/
  | asked (page : String)
  /-- A command that does nothing by itself is called with nothing at all. -/
  | idle (page : String)
  | refused (why : Refusal)
  deriving DecidableEq, Repr

end Toolbox.Surface
