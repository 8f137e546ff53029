import Toolbox.Tree.Node

/-!
# Command trees

A tree of commands is usable when every flag can be typed as one word and when, under each command,
no two names collide. `Node.check` looks for the first fault; a `Tree` is a root in which it found
none.
-/

namespace Toolbox

open Text

/-- What is wrong with a tree of commands. -/
inductive Fault where
  /-- A command under `parent` has the empty name. -/
  | emptyName (parent : String)
  /-- Two names under `parent` are equal. -/
  | duplicateName (parent name : String)
  /-- A flag of `command` cannot be typed at all. -/
  | missingSpelling (command : String)
  /-- A spelling of a flag of `command` is not one word; `flag` shows all its spellings. -/
  | malformedFlag (command flag : String)
  deriving DecidableEq, Repr

def Fault.message : Fault → String
  | emptyName parent => "command under '" ++ parent ++ "' has an empty name"
  | duplicateName parent name =>
    "'" ++ name ++ "' is declared more than once under '" ++ parent ++ "'"
  | missingSpelling command =>
    "an option on '" ++ command ++ "' has neither a long nor a short spelling"
  | malformedFlag command flag =>
    "option '" ++ flag ++ "' on '" ++ command ++ "' is not a valid flag spelling"

/-- The fault of a flag of `command`, if any. -/
def Flag.check (command : String) (f : Flag) : Except Fault Unit :=
  if f.spellings.isEmpty then .error (.missingSpelling command)
  else if f.isWellSpelled then .ok ()
  else .error (.malformedFlag command (joinWith ", " f.spellings))

/-- The flags of `command` are looked at in order. -/
def checkFlags (command : String) : List Flag → Except Fault Unit
  | [] => .ok ()
  | f :: rest =>
    match f.check command with
    | .error fault => .error fault
    | .ok () => checkFlags command rest

/-- The names in use under `parent` once `names` have joined those `taken` before. -/
def claimNames (parent : String) (taken : List String) : List String → Except Fault (List String)
  | [] => .ok taken
  | name :: rest =>
    if name ∈ taken then .error (.duplicateName parent name)
    else claimNames parent (name :: taken) rest

mutual

/-- The first fault at a command or below it. The flags come first; then each child in turn, its
names before everything below it. -/
def Node.check : Node → Except Fault Unit
  | ⟨name, _, _, _, flags, children⟩ =>
    match checkFlags name flags with
    | .error fault => .error fault
    | .ok () => checkChildren name [] children

/-- The first fault among the children of `parent`, given the names `taken` by earlier ones. -/
def checkChildren (parent : String) (taken : List String) : List Node → Except Fault Unit
  | [] => .ok ()
  | child :: rest =>
    if child.name = "" then .error (.emptyName parent)
    else
      match claimNames parent taken child.names with
      | .error fault => .error fault
      | .ok taken =>
        match child.check with
        | .error fault => .error fault
        | .ok () => checkChildren parent taken rest

end

/-- A root without a fault. -/
structure Tree where
  root : Node
  faultless : root.check = .ok ()

namespace Tree

/-- The tree under `root`, or the first fault in it. -/
def ofRoot (root : Node) : Except Fault Tree :=
  match h : root.check with
  | .error fault => .error fault
  | .ok () => .ok ⟨root, h⟩

def program (t : Tree) : String :=
  t.root.name

theorem ofRoot_eq_ok {root : Node} {t : Tree} (h : ofRoot root = .ok t) : t.root = root := by
  unfold ofRoot at h
  split at h
  · cases h
  · cases h; rfl

end Tree

end Toolbox
