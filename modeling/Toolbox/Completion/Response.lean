import Toolbox.Completion.Menu
import Toolbox.Text.Affix

/-!
# Completion responses

A menu is sent as lines. A tag line is `TAG`, a tab and a body; a candidate line is the text to
insert, a unit separator and the line of the menu to show, in which the inserts are padded to one
column. Characters that would break this framing are sent as spaces.
-/

namespace Toolbox

open Text

/-- What a response shows. -/
structure ResponseStyle where
  /-- The caption over the menu; `none` for no caption. -/
  header : Option String := some "dot commands"
  /-- Whether the severity's colour is sent. -/
  color : Bool := true
  /-- Whether descriptions are sent. -/
  descriptions : Bool := true
  deriving DecidableEq, Repr

namespace Response

/-- The character between the text to insert and the line of the menu. -/
def separator : Char := '\x1f'

/-- Whether a character would break the framing of lines. -/
def breaksFrame (c : Char) : Bool :=
  c = '\n' || c = '\r' || c = separator

/-- A text with a space for every character that would break the framing. -/
def flat (s : String) : String :=
  String.ofList (s.toList.map fun c => if breaksFrame c then ' ' else c)

/-- A text filled up with spaces to `width` characters. -/
def padTo (width : Nat) (s : String) : String :=
  s ++ String.ofList (List.replicate (width - s.length) ' ')

/-- One line of a response, without its newline. -/
inductive Line where
  | tag (name body : String)
  | candidate (insert shown : String)
  deriving DecidableEq, Repr

def Line.text : Line → String
  | tag name body => name ++ "\t" ++ body
  | candidate insert shown => insert ++ String.ofList [separator] ++ shown

/-- The width of the column of inserts: two more than the longest. -/
def width (m : Menu) : Nat :=
  m.items.foldl (fun w c => max w c.insert.length) 0 + 2

/-- The line of one candidate in a column of `width` characters. -/
def candidateLine (style : ResponseStyle) (width : Nat) (c : Candidate) : Line :=
  let insert := flat c.insert
  .candidate insert <|
    match if style.descriptions then c.display else none with
    | some display => padTo width insert ++ "-- " ++ flat display
    | none => padTo width insert

/-- The tag lines: the colour of the severity, the note and the caption. -/
def tagLines (style : ResponseStyle) (m : Menu) : List Line :=
  (if style.color then m.severity.toList.map fun s => .tag "COLOR" s.color else []) ++
  m.note.toList.map (fun note => .tag "NOTE" (flat note)) ++
  style.header.toList.map fun header => .tag "HEADER" (" " ++ flat header)

/-- The lines of a response: the tags, then the candidates in order. -/
def ofMenu (style : ResponseStyle) (m : Menu) : List Line :=
  tagLines style m ++ m.items.map (candidateLine style (width m))

end Response

/-- A menu in the form in which it is sent. -/
def Menu.encode (style : ResponseStyle) (m : Menu) : String :=
  lines ((Response.ofMenu style m).map Response.Line.text)

end Toolbox
