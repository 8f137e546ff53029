import Toolbox.Completion.Response
import Toolbox.Text.Blank
import Toolbox.Toml.Value

/-!
# Settings

What a user can set: how completion menus look and in which mode reports are written. Each setting
is read on its own, has its own default, and nothing else in the document counts.
-/

namespace Toolbox

open Text Toml

/-- How completion menus look. -/
structure MenuSettings where
  header : String := "dot commands"
  color : Bool := true
  descriptions : Bool := true
  deriving DecidableEq, Repr

/-- All settings of a user. -/
structure Settings where
  completion : MenuSettings := {}
  /-- The mode for reports, in the user's words. -/
  output : Option String := none
  deriving DecidableEq, Repr

namespace MenuSettings

/-- The style of responses. A blank header asks for no caption. -/
def style (s : MenuSettings) : ResponseStyle :=
  { header := if trim s.header = "" then none else some s.header
    color := s.color
    descriptions := s.descriptions }

end MenuSettings

namespace Settings

def readText : Value → Option String
  | .text s => some s
  | _ => none

def readBool : Value → Option Bool
  | .bool b => some b
  | _ => none

/-- One setting: its default when it is absent, and nothing when it has the wrong type. -/
def setting {α : Type} (read : Value → Option α) (default : α) : Option Value → Option α
  | none => some default
  | some v => read v

def menuSettings (header color descriptions : Option Value) : Option MenuSettings := do
  let header ← setting readText ({} : MenuSettings).header header
  let color ← setting readBool ({} : MenuSettings).color color
  let descriptions ← setting readBool ({} : MenuSettings).descriptions descriptions
  return { header, color, descriptions }

/-- The menu settings a value stands for: a table by key, an array by position. A date or time
counts as a table without any of the keys. -/
def readMenu : Value → Option MenuSettings
  | .table entries =>
    menuSettings (find? "header" entries) (find? "color" entries) (find? "descriptions" entries)
  | .array items => menuSettings items[0]? items[1]? items[2]?
  | .moment _ => some {}
  | _ => none

def ofTable? (entries : List (String × Value)) : Option Settings := do
  let completion ← setting readMenu {} (find? "completion" entries)
  let output ← setting (fun v => (readText v).map some) none (find? "output" entries)
  return { completion, output }

end Settings

end Toolbox
