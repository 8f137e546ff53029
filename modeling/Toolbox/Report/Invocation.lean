import Toolbox.Json.Value

/-!
# Invocations

The record of one command that was run: its path, its positional arguments in order, and its options
by key. It is built step by step; the options come out in key order whatever the order of the steps.
-/

namespace Toolbox.Report

/-- Which command ran, and with what. -/
structure Invocation where
  /-- The names of the command, separated by spaces. -/
  command : String
  args : List String := []
  opts : Keyed Json := []
  deriving Repr

namespace Invocation

def arg (i : Invocation) (value : String) : Invocation :=
  { i with args := i.args ++ [value] }

def addArgs (i : Invocation) (values : List String) : Invocation :=
  { i with args := i.args ++ values }

/-- The option `key` has this value. -/
def opt (i : Invocation) (key : String) (value : Json) : Invocation :=
  { i with opts := i.opts.put key value }

/-- The option `key` has this value, if there is one. -/
def optSome (i : Invocation) (key : String) : Option Json → Invocation
  | some value => i.opt key value
  | none => i

/-- One step of recording a command. -/
inductive Step where
  | arg (value : String)
  | args (values : List String)
  | opt (key : String) (value : Json)
  | optSome (key : String) (value : Option Json)
  deriving Repr

def apply (i : Invocation) : Step → Invocation
  | .arg value => i.arg value
  | .args values => i.addArgs values
  | .opt key value => i.opt key value
  | .optSome key value => i.optSome key value

def ofSteps (command : String) (steps : List Step) : Invocation :=
  steps.foldl apply { command }

end Invocation

end Toolbox.Report
