import Toolbox.Completion.Request
import Toolbox.Program.Surface
import Toolbox.Program.Task
import Toolbox.Settings.Load
import Toolbox.Surface.Outline

/-!
# Running `dot`

A call either asks for completions, which always succeeds, or is read as a command line and carried
out. The command line is read before the settings, so that help and refusals do not depend on them.
-/

namespace Toolbox.Program

open Surface Report

/-- What a call leaves behind. -/
structure Outcome where
  exit : Nat := 0
  stdout : String := ""
  stderr : String := ""
  deriving DecidableEq, Repr

/-- The style of menus for the user; settings that cannot be loaded count as none. -/
def menuStyle (e : Environment) : ResponseStyle :=
  match Settings.load e with
  | .ok settings => settings.completion.style
  | .error _ => ({} : ResponseStyle)

def complete (c : Command) (e : Environment) (args : List String) : String :=
  match c.forCompletion.tree with
  | .ok tree => (tree.complete (Request.ofArgs args).line).encode (menuStyle e)
  | .error _ => ""

/-- Whether `--json` was given at any level. -/
def wantsJson (levels : List Level) : Bool :=
  levels.any (·.has "json")

def mode (e : Environment) (settings : Settings) (levels : List Level) : Mode :=
  Mode.choose none (wantsJson levels) (e.lookup "FORMAT") settings.output e.terminal

def perform (e : Environment) (settings : Settings) (levels : List Level) : Task → String
  | .report i own => i.render (own.getD (mode e settings levels))
  | .setup shell => shell.setup

def carryOut (e : Environment) (levels : List Level) : Outcome :=
  match Settings.load e with
  | .error _ => { exit := 1, stderr := "Error: Failed to load dot config\n" }
  | .ok settings =>
    match Task.ofLevels? levels with
    | some task => { stdout := perform e settings levels task }
    | none => {}

/-- What a call with these arguments leaves behind. -/
def run (e : Environment) (args : List String) : Outcome :=
  if args.head? = some completeName then { stdout := complete dot e args.tail }
  else
    match dot.read args with
    | .error (.asked page) => { stdout := page }
    | .error (.idle page) => { exit := 2, stderr := page }
    | .error (.refused why) => { exit := 2, stderr := why.message ++ "\n" }
    | .ok levels => carryOut e levels

end Toolbox.Program
