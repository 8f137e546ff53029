import Toolbox.Surface.Command

/-!
# What every command is given

Before it is used a declared command is equipped: it takes over the global parameters of the
commands above it and gets parameters for help and for the version of the program; a command with
others below it also gets a subcommand for help. Turning help off at a command turns it off
below.
-/

namespace Toolbox.Surface

def helpName : String := "help"

def helpAbout : String := "Print this message or the help of the given subcommand(s)"

def helpParameter (hasLongHelp : Bool) : Parameter :=
  { id := "help", long := some "help", short := some 'h', action := .help
    help := some (if hasLongHelp then "Print help (see more with '--help')" else "Print help")
    longHelp := if hasLongHelp then some "Print help (see a summary with '-h')" else none }

def versionParameter : Parameter :=
  { id := "version", long := some "version", short := some 'V', action := .version
    help := some "Print version" }

/-- The options in their places on a help page: in order of declaration. -/
def numbered (next : Nat) : List Parameter → List Parameter
  | [] => []
  | p :: rest =>
    if p.isPositional then p :: numbered next rest
    else { p with order := next } :: numbered (next + 1) rest

/-- What a command takes over from the one above it. -/
structure Inherited where
  globals : List Parameter := []
  helpFlag : Bool := true
  helpSubcommand : Bool := true
  deriving Repr

/-- The parameters with those of `globals` after them that come under an id not taken before. -/
def takeOver (parameters : List Parameter) : List Parameter → List Parameter
  | [] => parameters
  | g :: rest =>
    if parameters.any (·.id = g.id) then takeOver parameters rest
    else takeOver (parameters ++ [g]) rest

namespace Profile

/-- The profile with all that the command is given, other than subcommands. -/
def equip (inherited : Inherited) (c : Profile) : Profile :=
  let c := { c with
    parameters := takeOver (numbered 0 c.parameters) inherited.globals
    helpFlag := c.helpFlag && inherited.helpFlag
    helpSubcommand := c.helpSubcommand && inherited.helpSubcommand }
  let help := if c.helpFlag then [helpParameter (Command.hasLongHelp c)] else []
  let version := if c.version.isSome then [versionParameter] else []
  { c with parameters := c.parameters ++ help ++ version }

/-- What an equipped command hands down to one below it. A subcommand for help is handed no
parameters. -/
def handDown (c : Profile) (below : String) : Inherited :=
  { globals :=
      if below = helpName && c.helpSubcommand then [] else c.parameters.filter (·.isGlobal)
    helpFlag := c.helpFlag
    helpSubcommand := c.helpSubcommand }

end Profile

mutual

/-- The command with all that it and the commands below it are given. The subcommand for help is
made by `helper` from the commands declared beside it. -/
def Command.equip (helper : List Command → Command) (inherited : Inherited) : Command → Command
  | ⟨profile, subcommands⟩ =>
    let equipped := profile.equip inherited
    ⟨equipped, equipAll helper equipped subcommands ++
      if equipped.helpSubcommand && !subcommands.isEmpty then [helper subcommands] else []⟩

/-- The commands below an equipped one, equipped in turn. -/
def equipAll (helper : List Command → Command) (above : Profile) : List Command → List Command
  | [] => []
  | c :: rest => c.equip helper (above.handDown c.name) :: equipAll helper above rest

end

mutual

/-- A command as it appears below the subcommand for help: with its name and what it is about. -/
def Command.helpTopic : Command → Command
  | ⟨profile, subcommands⟩ =>
    ⟨{ name := profile.name, about := profile.about, hidden := profile.hidden
       helpFlag := false, helpSubcommand := false }, helpTopics subcommands⟩

/-- Commands as they appear below the subcommand for help. -/
def helpTopics : List Command → List Command
  | [] => []
  | c :: rest => c.helpTopic :: helpTopics rest

end

def bareHelp : Command :=
  { name := helpName, about := helpAbout, helpFlag := false, helpSubcommand := false }

/-- The subcommand for help with its topics as commands below it. -/
def helpWithTopics (subcommands : List Command) : Command :=
  { bareHelp with subcommands := helpTopics subcommands ++ [bareHelp] }

/-- The subcommand for help with its topic as a parameter. -/
def helpWithParameter (_ : List Command) : Command :=
  { bareHelp with
    parameters := [{
      id := "subcommand", valueName := "COMMAND", action := .append
      help := some "Print help for the subcommand(s)" }] }

def Command.forCompletion (c : Command) : Command :=
  c.equip helpWithTopics {}

def Command.forReading (c : Command) : Command :=
  c.equip helpWithParameter {}

end Toolbox.Surface
