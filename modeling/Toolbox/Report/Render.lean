import Toolbox.Json.Printer
import Toolbox.Report.Invocation
import Toolbox.Report.Mode
import Toolbox.Text.Record

/-!
# Rendered invocations

An invocation in each mode: a heading over a rule and a line for each entry, one comma separated
record, or a JSON object.
-/

namespace Toolbox.Report

open Text

/-- An option's value as text: a text is itself, any other value is its JSON. -/
def valueText : Json → String
  | .str s => s
  | v => v.compact

namespace Invocation

def rule : String :=
  String.ofList (List.replicate 72 '-')

/-- A line of the pretty form: the key and a colon fill twelve columns, a space parts them from the
value. -/
def entry (key value : String) : String :=
  let label := key ++ ":"
  label ++ String.ofList (List.replicate (12 - label.length) ' ') ++ " " ++ value

/-- The pretty form. A command without positional arguments shows a dash. -/
def pretty (i : Invocation) : String :=
  lines <| ("dot " ++ i.command) :: rule ::
    entry "args" (if i.args.isEmpty then "-" else joinWith " " i.args) ::
    i.opts.map fun o => entry o.1 (valueText o.2)

/-- The fields of the text form: the command, the positional arguments and the options. -/
def fields (i : Invocation) : List String :=
  [i.command, joinWith " " i.args,
   joinWith ";" (i.opts.map fun o => o.1 ++ "=" ++ valueText o.2)]

def text (i : Invocation) : String :=
  Record.write i.fields

/-- The invocation as a JSON value. Its three members keep this order. -/
def toJson (i : Invocation) : Json :=
  .obj [("command", .str i.command), ("args", .arr (i.args.map .str)), ("opts", .obj i.opts)]

def json (i : Invocation) : String :=
  i.toJson.prettyAt 0 ++ "\n"

def render (i : Invocation) : Mode → String
  | .pretty => i.pretty
  | .text => i.text
  | .json => i.json

end Invocation

end Toolbox.Report
