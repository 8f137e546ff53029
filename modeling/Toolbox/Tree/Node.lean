import Toolbox.Tree.Flag

/-!
# Commands

A command knows its names, the flags it takes and the commands below it. It owns its children, so
that commands always form a tree.
-/

namespace Toolbox

open Text

/-- One command with everything below it. -/
structure Node where
  name : String
  aliases : List String := []
  about : String := ""
  /-- A hidden command is understood but never offered. -/
  hidden : Bool := false
  flags : List Flag := []
  children : List Node := []
  deriving Repr

namespace Node

def names (n : Node) : List String :=
  n.name :: n.aliases

/-- The first child that goes by exactly this word, hidden ones included. -/
def findChild (n : Node) (word : String) : Option Node :=
  n.children.find? fun c => c.names.contains word

def findFlag (n : Node) (word : String) : Option Flag :=
  n.flags.find? fun f => f.isSpelled word

/-- Whether one of the names begins with `fragment`. -/
def hasNameStarting (n : Node) (fragment : String) : Bool :=
  n.names.any fun name => startsWith name fragment

/-- The node reached by taking the children at these positions one after the other. -/
def descend? : Node → List Nat → Option Node
  | n, [] => some n
  | n, i :: path => n.children[i]?.bind fun c => c.descend? path

theorem mem_names_iff {n : Node} {word : String} :
    word ∈ n.names ↔ word = n.name ∨ word ∈ n.aliases := List.mem_cons

theorem findChild_mem {n c : Node} {word : String} (h : n.findChild word = some c) :
    c ∈ n.children ∧ word ∈ c.names := by
  refine ⟨List.mem_of_find?_eq_some h, ?_⟩
  simpa using List.find?_some h

theorem findChild_eq_none_iff {n : Node} {word : String} :
    n.findChild word = none ↔ ∀ c ∈ n.children, word ∉ c.names := by
  simp [findChild]

theorem findFlag_eq_none_iff {n : Node} {word : String} :
    n.findFlag word = none ↔ ∀ f ∈ n.flags, word ∉ f.spellings := by
  simp [findFlag, Flag.isSpelled]

theorem findFlag_mem {n : Node} {f : Flag} {word : String} (h : n.findFlag word = some f) :
    f ∈ n.flags ∧ word ∈ f.spellings := by
  refine ⟨List.mem_of_find?_eq_some h, ?_⟩
  simpa [Flag.isSpelled] using List.find?_some h

end Node

end Toolbox
