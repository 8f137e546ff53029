import Toolbox.Program.Script
import Toolbox.Report.Render
import Toolbox.Surface.Read

/-!
# Tasks

What a command line that was understood asks for: the report of an invocation, or a completion
script.
-/

namespace Toolbox.Program

open Surface Report

/-- What is to be done. -/
inductive Task where
  /-- Reports an invocation, in a mode of its own if the command line names one. -/
  | report (i : Invocation) (mode : Option Mode)
  /-- Prints what sets up completion for a shell. -/
  | setup (shell : Shell)
  deriving Repr

namespace Task

/-- A parameter's first value, as a positional argument of an invocation. -/
def argument (l : Level) (id : String) : List String :=
  (l.value? id).toList

def withSetup (l : Level) (i : Invocation) : Invocation :=
  (i.opt "env_only" (.bool (l.has "env_only"))).opt "template_only" (.bool (l.has "template_only"))

/-- The invocation of a list. The format stands among its options, and is the mode of the report
when it was given. -/
def ofList (source : Level) : Task :=
  let format := source.value? "format"
  let i : Invocation := { command := "list " ++ source.command }
  .report (i.opt "format" (.str (format.getD "human"))) (format.bind Mode.ofText?)

def ofProject (l : Level) : Task :=
  let i : Invocation := { command := "init " ++ l.command }
  .report (withSetup l (i.addArgs (argument l "dir"))) none

/-- The invocation that sets up smart contracts in a framework. -/
def ofContracts (contracts framework : Level) : Task :=
  let i : Invocation := { command := "init contracts " ++ framework.command }
  let i := (i.addArgs (argument framework "dir")).optSome "network"
    ((framework.value? "network").map .str)
  .report (withSetup contracts i) none

def ofContent (l : Level) : Task :=
  let i : Invocation := { command := "fetch " ++ l.command }
  .report (i.addArgs (argument l "id" ++ argument l "dir")) none

def ofAccount (l : Level) : Task :=
  let i : Invocation := { command := "account " ++ l.command }
  .report (i.addArgs (argument l "id" ++ l.values "passthrough")) none

def ofLevels? : List Level → Option Task
  | [_, second] =>
    if second.command = "completions" then
      ((second.value? "shell").bind Shell.ofName?).map .setup
    else none
  | [_, second, third] =>
    if second.command = "list" then some (ofList third)
    else if second.command = "init" then some (ofProject third)
    else if second.command = "fetch" then some (ofContent third)
    else if second.command = "account" then some (ofAccount third)
    else none
  | [_, second, third, fourth] =>
    if second.command = "init" ∧ third.command = "contracts" then some (ofContracts third fourth)
    else none
  | _ => none

end Task

end Toolbox.Program
