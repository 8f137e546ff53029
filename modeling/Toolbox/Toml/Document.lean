import Toolbox.Toml.Entry
import Toolbox.Toml.Moment

/-!
# Documents

A document is a sequence of statements: headers and assignments, with comments and blank lines
between them. `document?` reads the statements off a text, and `ofStatements?` puts the tables
together. Arrays and inline tables nest at most 79 deep, and a key has at most 79 parts.
-/

namespace Toolbox.Toml

open Scan

/-! ## Keys -/

/-- How many parts a key may have, and how deep values may nest. -/
def maxDepth : Nat := 79

def isBare (c : Char) : Bool :=
  c.isAlphanum || c = '-' || c = '_'

def keyPart : Scan String :=
  lineText '"' <|> lineText '\'' <|>
  (do
    let _ ← ahead (satisfy isBare)
    return String.ofList (← takeWhile isBare))

def key : Scan (List String × String) := do
  let parts ← separated (do spaces; let part ← keyPart; spaces; return part) (char '.')
  match parts.getLast? with
  | some last => if parts.length ≤ maxDepth then return (parts.dropLast, last) else failure
  | none => failure

/-! ## Values -/

def truth : Scan Bool :=
  (do word ['t', 'r', 'u', 'e']; return true) <|>
  (do word ['f', 'a', 'l', 's', 'e']; return false)

def scalar : Scan Value :=
  (do return .text (← text)) <|>
  (do return .bool (← truth)) <|>
  (do return .moment (← moment)) <|>
  (do return .real (← real)) <|>
  (do return .integer (← integer))

def array (item : Scan Value) : Scan Value := do
  char '['
  let items ← optional (separated (do gap; let v ← item; gap; return v) (char ','))
  if items.isSome then
    let _ ← optional (char ',')
  gap
  char ']'
  return .array (items.getD [])

def inlineAssignment (item : Scan Value) : Scan (List String × String × Value) := do
  let (path, last) ← key
  char '='
  spaces
  let v ← item
  spaces
  return (path, last, v)

/-- An inline table. It stands on one line, and no comma follows its last assignment. -/
def inlineTable (item : Scan Value) : Scan Value := do
  char '{'
  let assignments ← optional (separated (inlineAssignment item) (char ','))
  spaces
  char '}'
  match Entries.assignAll (assignments.getD []) [] with
  | some entries => return .table (finishEntries entries)
  | none => failure

/-- A value in which arrays and inline tables nest at most `depth` deep. -/
def value : Nat → Scan Value
  | 0 => scalar
  | depth + 1 => array (value depth) <|> inlineTable (value depth) <|> scalar

/-! ## Statements -/

/-- A line of a document that says something. -/
inductive Statement where
  /-- The header `[path.key]`. -/
  | table (path : List String) (key : String)
  /-- The header `[[path.key]]`. -/
  | element (path : List String) (key : String)
  /-- The line `path.key = v`. -/
  | assignment (path : List String) (key : String) (v : Value)
  deriving Repr

def elementHeader : Scan Statement := do
  word ['[', '[']
  let (path, last) ← key
  word [']', ']']
  lineEnd
  return .element path last

def tableHeader : Scan Statement := do
  char '['
  let (path, last) ← key
  char ']'
  lineEnd
  return .table path last

def assignment : Scan Statement := do
  let (path, last) ← key
  char '='
  spaces
  let v ← value maxDepth
  lineEnd
  return .assignment path last v

/-- A line of a document: nothing, a comment, or a statement. -/
def line : Scan (Option Statement) := do
  spaces
  (do newline; return none) <|>
  (do comment; newline <|> atEnd; return none) <|>
  (do return some (← elementHeader)) <|>
  (do return some (← tableHeader)) <|>
  (do return some (← assignment))

/-- All lines of a document. A byte order mark may come first. -/
def statements : Scan (List Statement) := do
  let _ ← optional (char (Char.ofNat 0xFEFF))
  let lines ← many line
  spaces
  return lines.filterMap id

/-! ## Tables -/

/-- The assignments up to the next header, and what follows them. -/
def takeAssignments : List Statement → List (List String × String × Value) × List Statement
  | .assignment path key v :: rest =>
    let more := takeAssignments rest
    ((path, key, v) :: more.1, more.2)
  | other => ([], other)

/-- The root after the statements, each header opening a section that lasts to the next. -/
def addSections (entries : Entries) : List Statement → Option Entries
  | [] => some entries
  | .table path key :: rest =>
    (entries.openTable path key (Entries.assignAll (takeAssignments rest).1)).bind
      (addSections · rest)
  | .element path key :: rest =>
    (entries.addElement path key (Entries.assignAll (takeAssignments rest).1)).bind
      (addSections · rest)
  | .assignment .. :: rest => addSections entries rest

def ofStatements? (statements : List Statement) : Option (List (String × Value)) :=
  ((Entries.assignAll (takeAssignments statements).1 []).bind (addSections · statements)).map
    finishEntries

def document? (s : String) : Option (List (String × Value)) :=
  (whole? statements s).bind ofStatements?

end Toolbox.Toml
