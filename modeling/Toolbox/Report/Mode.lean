import Toolbox.Text.Blank

/-!
# Report modes

The three forms in which a report can be written, and which of them is taken: a format asked for by
flag wins over `--json`, that over the environment, that over the settings; with none of them a
terminal gets the pretty form and a pipe gets text.
-/

namespace Toolbox.Report

open Text

/-- A form in which a report is written. -/
inductive Mode where
  | pretty
  | text
  | json
  deriving DecidableEq, Repr

namespace Mode

/-- The mode a word stands for, whatever its case and the white space around it. -/
def ofText? (s : String) : Option Mode :=
  let word := lowerAscii (trim s)
  if word = "json" then some json
  else if word = "text" ∨ word = "csv" then some text
  else if word = "pretty" ∨ word = "human" then some pretty
  else none

/-- The mode without any flag. A word that stands for no mode counts as none. -/
def fallback (environment settings : Option String) (terminal : Bool) : Mode :=
  (environment.bind ofText? <|> settings.bind ofText?).getD (if terminal then pretty else text)

def choose (flag : Option Mode) (jsonFlag : Bool) (environment settings : Option String)
    (terminal : Bool) : Mode :=
  flag.getD (if jsonFlag then json else fallback environment settings terminal)

end Mode

end Toolbox.Report
