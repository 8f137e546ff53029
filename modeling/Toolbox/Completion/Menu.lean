/-!
# Menus

What is offered for the word under the cursor: the candidates, what kind of word they are, and a
note with its severity for the shell to show.
-/

namespace Toolbox

/-- One suggestion. -/
structure Candidate where
  /-- The text the shell puts on the line. -/
  insert : String
  /-- What is shown beside it and never put on the line. -/
  display : Option String := none
  deriving DecidableEq, Repr

/-- How a note is meant. -/
inductive Severity where
  | info
  | error
  deriving DecidableEq, Repr

def Severity.color : Severity → String
  | info => "green"
  | error => "red"

/-- What sort of word is being completed. -/
inductive WordKind where
  | subcommand
  | flag
  | value
  /-- A word that can be no subcommand. -/
  | invalid
  deriving DecidableEq, Repr

/-- The answer to a completion request. -/
structure Menu where
  kind : WordKind
  items : List Candidate
  note : Option String := none
  severity : Option Severity := none
  deriving DecidableEq, Repr

namespace Menu

def found (kind : WordKind) (items : List Candidate) : Menu :=
  { kind, items, severity := some .info }

/-- The empty menu that reports `word` as no subcommand of `command`. -/
def unknown (word command : String) : Menu :=
  { kind := .invalid
    items := []
    note := some ("'" ++ word ++ "' is not a subcommand of '" ++ command ++ "'.")
    severity := some .error }

def inserts (m : Menu) : List String :=
  m.items.map (·.insert)

end Menu

end Toolbox
