/-!
# Declared commands

The command line of a program as it is declared: commands with their names and texts, the parameters
each takes, and the commands below it.
-/

namespace Toolbox.Surface

/-- What is done when a parameter is met on a command line. -/
inductive Action where
  /-- Takes one value, once. -/
  | set
  /-- Takes values, and more each time. -/
  | append
  | setTrue
  | setFalse
  | count
  /-- Shows the help of the command. -/
  | help
  /-- Shows the version of the program. -/
  | version
  deriving DecidableEq, Repr

def Action.takesValues : Action → Bool
  | set | append => true
  | setTrue | setFalse | count | help | version => false

/-- One of the values a parameter admits. -/
structure Choice where
  name : String
  /-- Admitted but never offered. -/
  hidden : Bool := false
  deriving DecidableEq, Repr

/-- What the values of a parameter may be. -/
inductive Values where
  /-- Any text. -/
  | text
  /-- Any text but the empty one. -/
  | path
  /-- One of these. -/
  | choice (choices : List Choice)
  deriving DecidableEq, Repr

/-- The values that are shown to the user, in order; none when any text will do. -/
def Values.shown : Values → List String
  | text | path => []
  | choice choices => (choices.filter (!·.hidden)).map (·.name)

/-- A parameter of a command. With neither a long nor a short name it goes by its position. -/
structure Parameter where
  id : String
  long : Option String := none
  short : Option Char := none
  help : Option String := none
  /-- The help text in the long form of help, where that differs. -/
  longHelp : Option String := none
  action : Action := .set
  values : Values := .text
  /-- What stands for a value in help. -/
  valueName : String := ""
  hidden : Bool := false
  /-- Also a parameter of every command below. -/
  isGlobal : Bool := false
  required : Bool := false
  /-- Whether words that begin with a dash can be values; all words after the first value are
  values then. -/
  takesRest : Bool := false
  /-- The ids of parameters that cannot be given together with this one. -/
  conflicts : List String := []
  /-- The place among the options of a help page. -/
  order : Nat := 999
  deriving DecidableEq, Repr

namespace Parameter

def isPositional (p : Parameter) : Bool :=
  p.long.isNone && p.short.isNone

def takesValues (p : Parameter) : Bool :=
  p.action.takesValues

def placeholder (p : Parameter) : String :=
  let name :=
    if p.required || !p.isPositional then "<" ++ p.valueName ++ ">" else "[" ++ p.valueName ++ "]"
  if p.action = .append && p.isPositional then name ++ "..." else name

/-- The spelling that stands for the parameter in messages. -/
def spelling (p : Parameter) : String :=
  match p.long, p.short with
  | some long, _ => "--" ++ long
  | none, some c => String.ofList ['-', c]
  | none, none => ""

def shown (p : Parameter) : String :=
  if p.isPositional then p.placeholder
  else if p.takesValues then p.spelling ++ " " ++ p.placeholder
  else p.spelling

end Parameter

/-- A further name of a command. -/
structure Alias where
  name : String
  /-- Understood but never shown. -/
  hidden : Bool := false
  deriving DecidableEq, Repr

/-- All that is declared of a command itself. -/
structure Profile where
  name : String
  about : String := ""
  /-- What the command is about in the long form of help, where that differs. -/
  longAbout : Option String := none
  /-- What closes the help page. -/
  afterHelp : Option String := none
  hidden : Bool := false
  aliases : List Alias := []
  parameters : List Parameter := []
  version : Option String := none
  /-- Whether the command, and those below it, are given a flag for help. -/
  helpFlag : Bool := true
  /-- Whether the command, and those below it, are given a subcommand for help. -/
  helpSubcommand : Bool := true
  /-- Whether the command does nothing by itself. -/
  needsSubcommand : Bool := false
  deriving DecidableEq, Repr

/-- A command with the commands below it. -/
structure Command extends Profile where
  subcommands : List Command := []
  deriving Repr

namespace Command

def names (c : Command) : List String :=
  c.name :: c.aliases.map (·.name)

def find? (c : Command) (word : String) : Option Command :=
  c.subcommands.find? fun s => s.names.contains word

/-- The parameters that go by a name, in order of declaration. -/
def options (c : Command) : List Parameter :=
  c.parameters.filter (!·.isPositional)

def positionals (c : Command) : List Parameter :=
  c.parameters.filter (·.isPositional)

def long? (c : Command) (name : String) : Option Parameter :=
  c.parameters.find? fun p => p.long = some name

def short? (c : Command) (letter : Char) : Option Parameter :=
  c.parameters.find? fun p => p.short = some letter

def hasLongHelp (c : Profile) : Bool :=
  c.longAbout.isSome || c.parameters.any fun p => !p.hidden && p.longHelp.isSome

end Command

end Toolbox.Surface
