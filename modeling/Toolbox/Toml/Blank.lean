import Toolbox.Toml.Scan

/-!
# Between values

Blanks, line ends and comments.
-/

namespace Toolbox.Toml

open Scan

def isSpace (c : Char) : Bool :=
  c = ' ' || c = '\t'

def isWide (c : Char) : Bool :=
  decide (0x80 ≤ c.toNat)

def isPrintable (c : Char) : Bool :=
  decide (0x20 ≤ c.toNat ∧ c.toNat ≤ 0x7E)

/-- A character that can stand in a comment or a text: anything but a control character other than
the tab. -/
def isPlain (c : Char) : Bool :=
  c = '\t' || isPrintable c || isWide c

def spaces : Scan Unit := do
  let _ ← takeWhile isSpace

def newline : Scan Unit :=
  char '\n' <|> word ['\r', '\n']

def comment : Scan Unit := do
  char '#'
  let _ ← takeWhile isPlain

/-- What may follow on the line of a header or an assignment. -/
def lineEnd : Scan Unit := do
  spaces
  let _ ← optional comment
  newline <|> atEnd

/-- Blanks, line ends and comments, as they may stand between the items of an array. -/
def gap : Scan Unit := do
  let _ ← many ((do let _ ← satisfy isSpace) <|> newline <|> comment)

end Toolbox.Toml
