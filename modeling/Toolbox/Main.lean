import Toolbox.Program.Run

/-!
# The program

Looks up what a call depends on, runs it, and writes out what it leaves behind.
-/

namespace Toolbox

def variableNames : List String :=
  ["DOT_CONFIG", "XDG_CONFIG_HOME", "HOME", "FORMAT"]

/-- What lies at a path. The code 21 says that the path is that of a directory. -/
def look (path : String) : IO FileState := do
  try
    return .octets (← IO.FS.readBinFile path).toList
  catch
    | .inappropriateType _ code _ => return if code = 21 then .directory else .missing
    | _ => return .missing

def surroundings : IO Environment := do
  let values ← variableNames.filterMapM fun name => do
    return (← IO.getEnv name).map fun value => (name, value)
  let bare : Environment := {
    lookup := (List.lookup · values), file := fun _ => .missing
    terminal := ← (← IO.getStdout).isTty }
  match Settings.path? bare with
  | none => return bare
  | some path =>
    let found ← look path
    return { bare with file := fun p => if p = path then found else .missing }

end Toolbox

open Toolbox in
def main (args : List String) : IO UInt32 := do
  let outcome := Program.run (← surroundings) args
  (← IO.getStdout).putStr outcome.stdout
  (← IO.getStderr).putStr outcome.stderr
  return UInt32.ofNat outcome.exit
