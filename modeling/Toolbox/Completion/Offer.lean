import Toolbox.Completion.Menu
import Toolbox.Completion.Walk
import Toolbox.Tree.Basic

/-!
# What is offered

A command line under completion is the words on it and the fragment under the cursor. The words
that are committed lead to a command (`Node.walk`); the last of them and the fragment then decide
whether a value, a flag or a subcommand is being typed, and the candidates are those of that command
in the order of their declaration.
-/

namespace Toolbox

open Text

/-- A command line under completion. -/
structure Line where
  /-- The words on the line. The name of the program may lead and the fragment may be repeated at
  the end. -/
  tokens : List String := []
  /-- The word under the cursor; empty right after a space. -/
  fragment : String := ""
  deriving DecidableEq, Repr

namespace Line

def dropProgram (program : String) : List String → List String
  | [] => []
  | word :: rest => if word = program then rest else word :: rest

/-- The words without the repetition of a non-empty fragment at their end. -/
def dropEcho (fragment : String) (words : List String) : List String :=
  if fragment ≠ "" ∧ words.getLast? = some fragment then words.dropLast else words

/-- The words before the cursor that lead somewhere: empty ones, the program's name and the echo of
the fragment do not count. -/
def committed (program : String) (line : Line) : List String :=
  dropEcho line.fragment (dropProgram program (line.tokens.filter (· ≠ "")))

end Line

namespace Node

/-- The flag whose value is under the cursor and the part of the value typed so far. A fragment
`--flag=v` carries both. Otherwise the word before it is the flag, unless that flag is known to take
no value; what the fragment then has up to a `=` does not count. -/
def valueUnderCursor (n : Node) (previous : Option String) (fragment : String) :
    Option (String × String) :=
  match if startsWith fragment "--" then cutAt '=' fragment else none with
  | some cut => some cut
  | none =>
    match previous with
    | none => none
    | some word =>
      if looksLikeFlag word && !holds '=' word && (n.findFlag word).all (·.takesValue) then
        some (word, ((cutAt '=' fragment).map (·.2)).getD fragment)
      else none

/-- The values of the flag spelled `flag` that begin with `needle`. -/
def valueItems (n : Node) (flag needle : String) : List Candidate :=
  match n.findFlag flag with
  | none => []
  | some f =>
    if f.takesValue then
      ((f.choices.getD []).filter (startsWith · needle)).map fun v => { insert := v }
    else []

def flagItems (n : Node) (fragment : String) : List Candidate :=
  n.flags.flatMap fun f =>
    (f.spellings.filter (startsWith · fragment)).map fun s => { insert := s, display := f.help }

/-- A command as it is offered: by its name, with its description unless that is empty. -/
def asItem (n : Node) : Candidate :=
  { insert := n.name, display := if n.about = "" then none else some n.about }

/-- The children, but for the hidden ones, that have a name beginning with the fragment. -/
def childItems (n : Node) (fragment : String) : List Candidate :=
  (n.children.filter fun c => !c.hidden && c.hasNameStarting fragment).map asItem

/-- What is offered at a command, given the word before the fragment. -/
def offer (n : Node) (previous : Option String) (fragment : String) : Menu :=
  match n.valueUnderCursor previous fragment with
  | some (flag, needle) => .found .value (n.valueItems flag needle)
  | none =>
    if looksLikeFlag fragment then .found .flag (n.flagItems fragment)
    else if fragment ≠ "" ∧ ¬ n.children.any (·.hasNameStarting fragment) then
      .unknown fragment n.name
    else .found .subcommand (n.childItems fragment)

end Node

/-- The menu for a command line. -/
def Tree.complete (t : Tree) (line : Line) : Menu :=
  let words := line.committed t.program
  match t.root.walk words with
  | .error e => .unknown e.word e.parent
  | .ok n => n.offer words.getLast? line.fragment

end Toolbox
