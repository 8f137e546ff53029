import Toolbox.Surface.Command
import Toolbox.Text.Control
import Toolbox.Tree.Basic

/-!
# Completion trees of declared commands

The tree that completes a declared command: a node for each command, and a flag for each parameter
that goes by a name and is not hidden. What commands are about and what parameters say for help
come as plain text, without control sequences; names and values are taken as they are.
-/

namespace Toolbox.Surface

open Text

def completeName : String := "__complete"

def Parameter.toFlag (p : Parameter) : Flag :=
  let spelled : Flag := match p.long with
    | some long => Flag.withLong {} long
    | none => {}
  let spelled := match p.short with
    | some c => spelled.withShort c
    | none => spelled
  let valued :=
    if p.takesValues then
      match p.values.shown with
      | [] => spelled.takingValue
      | choices => spelled.withChoices choices
    else spelled
  match p.help with
  | some text => valued.withHelp (Control.plain text)
  | none => valued

def Profile.flags (c : Profile) : List Flag :=
  (c.parameters.filter fun p => !p.isPositional && !p.hidden).map (·.toFlag)

mutual

def Command.outline : Command → Node
  | ⟨profile, subcommands⟩ =>
    { name := profile.name
      aliases := profile.aliases.map (·.name)
      about := Control.plain profile.about
      hidden := profile.hidden
      flags := profile.flags
      children := outlineAll subcommands }

def outlineAll : List Command → List Node
  | [] => []
  | c :: rest => c.outline :: outlineAll rest

end

/-- A root with a hidden child for the completion requests themselves, so that these are no unknown
word. -/
def withMarker (root : Node) : Node :=
  { root with children := root.children ++ [{ name := completeName, hidden := true }] }

/-- The completion tree of a command that is already equipped. -/
def Command.tree (c : Command) : Except Fault Tree :=
  Tree.ofRoot (withMarker c.outline)

end Toolbox.Surface
