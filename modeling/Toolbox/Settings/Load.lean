import Toolbox.Environment
import Toolbox.Settings.Basic
import Toolbox.Text.Utf8
import Toolbox.Toml.Document

/-!
# Loading settings

Where the settings file lies, and what comes of reading it. A file that is not there means the
defaults; one that is there must be readable.
-/

namespace Toolbox

open Text

/-- Why settings cannot be loaded. -/
inductive LoadError where
  /-- The path is that of a directory. -/
  | isDirectory
  /-- The file is not UTF-8. -/
  | notText
  /-- The text is no TOML document or has a setting of the wrong type. -/
  | malformed
  deriving DecidableEq, Repr

namespace Settings

def below (directory path : String) : String :=
  if directory = "" ∨ directory.toList.getLast? = some '/' then directory ++ path
  else directory ++ "/" ++ path

/-- The directory for settings: `XDG_CONFIG_HOME` if that is an absolute path, else `.config` in the
home directory. -/
def directory? (e : Environment) : Option String :=
  match (e.lookup "XDG_CONFIG_HOME").filter (startsWith · "/") with
  | some d => some d
  | none =>
    ((e.lookup "HOME").filter (· ≠ "") <|> e.accountHome).map (below · ".config")

/-- The path of the settings file: `DOT_CONFIG` unless that is empty, else a fixed place in the
directory for settings. -/
def path? (e : Environment) : Option String :=
  (e.lookup "DOT_CONFIG").filter (· ≠ "") <|> (directory? e).map (below · "dot/config.toml")

def ofDocument (s : String) : Except LoadError Settings :=
  match (Toml.document? s).bind ofTable? with
  | some settings => .ok settings
  | none => .error .malformed

def ofFile : FileState → Except LoadError Settings
  | .missing => .ok {}
  | .directory => .error .isDirectory
  | .octets content =>
    match Utf8.decode? content with
    | none => .error .notText
    | some s => ofDocument s

/-- The settings of the user. Without a place for them they are the defaults. -/
def load (e : Environment) : Except LoadError Settings :=
  match path? e with
  | none => .ok {}
  | some path => ofFile (e.file path)

end Settings

end Toolbox
