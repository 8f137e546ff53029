import Toolbox.Text.Affix
import Toolbox.Text.Blank

/-!
# Flags

A flag of a command: its long and short spelling, whether a value follows it, the values it admits
and its help text. A flag is put together step by step from the empty one, and a later step
replaces what an earlier one set. `Flag.isWellSpelled` says which spellings a shell can hand over
as one word.
-/

namespace Toolbox

open Text

/-- One flag of a command. Both spellings are kept with their dashes. -/
structure Flag where
  long : Option String := none
  short : Option String := none
  takesValue : Bool := false
  /-- The values the flag admits; `none` when any value will do. -/
  choices : Option (List String) := none
  help : Option String := none
  deriving DecidableEq, Repr

namespace Flag

/-- The long spelling becomes `name` behind exactly two dashes. -/
def withLong (f : Flag) (name : String) : Flag :=
  { f with long := some ("--" ++ dropDashes name) }

/-- The short spelling becomes the letter `c` behind one dash. -/
def withShort (f : Flag) (c : Char) : Flag :=
  { f with short := some (String.ofList ['-', c]) }

def takingValue (f : Flag) : Flag :=
  { f with takesValue := true }

/-- A value follows the flag and must be one of `values`, of which the first of equals is kept. -/
def withChoices (f : Flag) (values : List String) : Flag :=
  { f with takesValue := true, choices := some values.eraseDups }

/-- The help text becomes `text`. -/
def withHelp (f : Flag) (text : String) : Flag :=
  { f with help := some text }

/-- One step of putting a flag together. -/
inductive Step where
  | long (name : String)
  | short (c : Char)
  | takesValue
  | choices (values : List String)
  | help (text : String)
  deriving DecidableEq, Repr

def apply (f : Flag) : Step → Flag
  | .long name => f.withLong name
  | .short c => f.withShort c
  | .takesValue => f.takingValue
  | .choices values => f.withChoices values
  | .help text => f.withHelp text

/-- The flag that a sequence of steps makes of the empty one. -/
def ofSteps (steps : List Step) : Flag :=
  steps.foldl apply {}

/-- The spellings as they are offered: the short one, then the long one. -/
def spellings (f : Flag) : List String :=
  f.short.toList ++ f.long.toList

/-- Whether `word` is one of the spellings. -/
def isSpelled (f : Flag) (word : String) : Bool :=
  f.spellings.contains word

/-- A long spelling is one word when something follows its dashes and neither `=` nor white space
occurs in it. -/
def longIsWord (s : String) : Bool :=
  decide (2 < s.length) && !holds '=' s && !s.toList.any isBlank

/-- A short spelling is one word when it is a dash and one character other than `-` and `=`. -/
def shortIsWord (s : String) : Bool :=
  match s.toList with
  | [_, c] => decide (c ≠ '-' ∧ c ≠ '=')
  | _ => false

def isWellSpelled (f : Flag) : Bool :=
  f.long.all longIsWord && f.short.all shortIsWord

end Flag

end Toolbox
