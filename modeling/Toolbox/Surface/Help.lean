import Toolbox.Completion.Response
import Toolbox.Surface.Command

/-!
# Help pages

What a command prints about itself: what it is about, how it is called, and a list each of the
commands below it, its positional parameters and its options. In the short form every entry of a
list is one line, with the texts in a column of their own; in the long form each text stands below
its entry.
-/

namespace Toolbox.Surface

open Text

/-- An entry of a list: how it is written and what is said about it. -/
structure Entry where
  label : String
  text : String
  deriving DecidableEq, Repr

namespace Help

/-! ## Entries -/

/-- How an option is written in a list. Long names form a column. -/
def optionLabel (p : Parameter) : String :=
  let short := match p.short with
    | some c => String.ofList ['-', c]
    | none => ""
  let long := match p.long with
    | some long => "--" ++ long
    | none => ""
  let names :=
    if p.short.isNone then "    " ++ long
    else if p.long.isNone then short
    else short ++ ", " ++ long
  if p.takesValues then names ++ " " ++ p.placeholder else names

def label (p : Parameter) : String :=
  if p.isPositional then p.placeholder else optionLabel p

/-- The values a parameter admits, as they are listed behind its text. -/
def possibleValues (p : Parameter) : String :=
  if p.takesValues then
    match p.values.shown with
    | [] => ""
    | names => "[possible values: " ++ joinWith ", " names ++ "]"
  else ""

/-- The texts that are not empty, with `separator` between neighbours. -/
def joinFilled (separator : String) (texts : List String) : String :=
  joinWith separator (texts.filter (· ≠ ""))

def parameterEntry (long : Bool) (p : Parameter) : Entry :=
  let text := (if long then p.longHelp <|> p.help else p.help).getD ""
  { label := label p
    text := joinFilled (if long then "\n\n" else " ") [text, possibleValues p] }

/-- The further names of a command, as they are listed behind its text. -/
def shownAliases (c : Command) : String :=
  match (c.aliases.filter (!·.hidden)).map (·.name) with
  | [] => ""
  | [name] => "[alias: " ++ name ++ "]"
  | names => "[aliases: " ++ joinWith ", " names ++ "]"

/-- The entry of a command in the list of the one above it. -/
def commandEntry (c : Command) : Entry :=
  { label := c.name, text := joinFilled " " [c.about, shownAliases c] }

/-! ## Order -/

/-- The key by which options in the same place are put in order: the short name with the small
letter first, else the long name. -/
def optionKey (p : Parameter) : String :=
  match p.short, p.long with
  | some c, _ => String.ofList [c.toLower, if 'a' ≤ c ∧ c ≤ 'z' then '0' else '1']
  | none, some long => long
  | none, none => ""

def comesFirst (p q : Parameter) : Bool :=
  decide (p.order < q.order) || (p.order = q.order && decide (optionKey p ≤ optionKey q))

/-- The options that are shown, in the order in which they are listed. -/
def shownOptions (c : Command) : List Parameter :=
  (c.options.filter (!·.hidden)).mergeSort comesFirst

def shownPositionals (c : Command) : List Parameter :=
  c.positionals.filter (!·.hidden)

def shownSubcommands (c : Command) : List Command :=
  c.subcommands.filter (!·.hidden)

/-! ## Layout -/

/-- An entry on one line, its text in a column behind labels of up to `width` characters. -/
def shortEntry (width : Nat) (e : Entry) : String :=
  if e.text = "" then "  " ++ e.label
  else "  " ++ Response.padTo width e.label ++ "  " ++ e.text

/-- A text with every line but the first moved in by ten spaces. -/
def indented (text : String) : String :=
  let gap := List.replicate 10 ' '
  String.ofList (text.toList.flatMap fun c => if c = '\n' then '\n' :: gap else [c])

def longEntry (e : Entry) : String :=
  if e.text = "" then "  " ++ e.label
  else "  " ++ e.label ++ "\n          " ++ indented e.text

def shortList (entries : List Entry) : String :=
  let width := entries.foldl (fun w e => max w e.label.length) 0
  joinWith "\n" (entries.map (shortEntry width))

def longList (entries : List Entry) : String :=
  joinWith "\n\n" (entries.map longEntry)

/-- A list under its heading; nothing when there are no entries. -/
def listing (heading : String) (list : List Entry → String) (entries : List Entry) : String :=
  if entries.isEmpty then "" else heading ++ ":\n" ++ list entries

/-! ## Pages -/

/-- Whether an option is mentioned in the usage line. Help and version are not. -/
def isMentioned (p : Parameter) : Bool :=
  match p.action with
  | .help | .version => false
  | .set | .append | .setTrue | .setFalse | .count => !p.hidden && !p.required

def usage (c : Command) (path : String) : String :=
  joinFilled " " (
    ["Usage:", path, if c.options.any isMentioned then "[OPTIONS]" else ""] ++
    (shownPositionals c).map (·.placeholder) ++
    [if (shownSubcommands c).isEmpty then ""
     else if c.needsSubcommand then "<COMMAND>" else "[COMMAND]"])

/-- The page of a command called by `path`. The long form is used where it is asked for and the
command has one. -/
def page (c : Command) (path : String) (long : Bool) : String :=
  let long := long && Command.hasLongHelp c.toProfile
  let list := if long then longList else shortList
  joinFilled "\n\n" [
    if long then c.longAbout.getD c.about else c.about,
    usage c path,
    listing "Commands" shortList ((shownSubcommands c).map commandEntry),
    listing "Arguments" list ((shownPositionals c).map (parameterEntry long)),
    listing "Options" list ((shownOptions c).map (parameterEntry long)),
    c.afterHelp.getD ""] ++ "\n"

end Help

end Toolbox.Surface
