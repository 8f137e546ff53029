/-!
# Control sequences

Texts can carry orders to a terminal: single control characters, and sequences that begin with the
character ESC. What is shown as plain text is what is left without them. Blanks that move to another
place on the page are kept: tab, line feed, form feed and carriage return.

A sequence begins with ESC, and the next character tells its kind. A control sequence (`[`) ends
with a letter or another character from `@` to `~`, a command (`]`) with BEL, a device string (`P`)
and the other strings (`X`, `^`, `_`) with a string terminator. CAN and SUB break off a sequence of
any kind, and ESC begins another one. A character beyond ASCII in a sequence is part of it and is
not shown.

Two readings differ in a sequence that a shown blank interrupts. A text that is taken whole
(`plain`) is text again after anything that is shown. A stream (`plainStream`) takes the sequence up
again at the next control character.
-/

namespace Toolbox.Text.Control

/-- Where a reader stands between characters. -/
inductive State where
  /-- Outside of all sequences. -/
  | text
  /-- After ESC. -/
  | escape
  /-- After ESC and one or more characters from blank to `/`. -/
  | designation
  /-- In a control sequence. -/
  | control
  /-- In a command to the operating system. -/
  | command
  /-- At the start of a device string. -/
  | device
  /-- In the parameters of a device string. -/
  | deviceParameters
  /-- After one or more characters from blank to `/` that follow a device string's parameters. -/
  | deviceDesignation
  /-- In a string of which nothing is shown. -/
  | string
  deriving DecidableEq, Repr

/-- Whether a character lies between two others, both included. -/
def within (low high c : Char) : Bool :=
  low.toNat ≤ c.toNat && c.toNat ≤ high.toNat

def isAscii (c : Char) : Bool :=
  c.toNat < 0x80

/-- Whether a control character moves to another place on the page. -/
def isMotion (c : Char) : Bool :=
  c = '\t' || c = '\n' || c = '\x0c' || c = '\r'

/-- Whether one of the octets of a character beyond ASCII, after the first, is the string terminator
0x9C. -/
def holdsTerminator (c : Char) : Bool :=
  !isAscii c &&
    (c.toNat % 0x40 = 0x1C || (c.toNat ≥ 0x800 && c.toNat / 0x40 % 0x40 = 0x1C) ||
      (c.toNat ≥ 0x10000 && c.toNat / 0x1000 % 0x40 = 0x1C))

namespace State

/-- Whether a character is shown when it is met in this state. -/
def shows : State → Char → Bool
  | text, c => !isAscii c || within ' ' '~' c || isMotion c
  | escape, c | designation, c | control, c => isMotion c
  | command, _ | device, _ | deviceParameters, _ | deviceDesignation, _ | string, _ => false

/-- The kind of sequence that a character makes of an ESC before it. -/
def ofEscape (c : Char) : State :=
  if c = '[' then control
  else if c = ']' then command
  else if c = 'P' then device
  else if c = 'X' || c = '^' || c = '_' then string
  else if within ' ' '/' c then designation
  else if within '0' '~' c then text
  else escape

/-- Whether a character belongs to the parameters of a device string that have begun. -/
def isParameter (c : Char) : Bool :=
  within '0' '9' c || c = ';'

def next (s : State) (c : Char) : State :=
  if c = '\x18' || c = '\x1a' then text
  else if c = '\x1b' then escape
  else
    match s with
    | text => text
    | escape => ofEscape c
    | designation => if within '0' '~' c then text else designation
    | control => if within '@' '~' c then text else control
    | command => if c = '\x07' then text else command
    | device =>
      if within ' ' '/' c then deviceDesignation
      else if isParameter c || within '<' '?' c then deviceParameters
      else if within ' ' '~' c then string
      else device
    | deviceParameters =>
      if within ' ' '/' c then deviceDesignation
      else if isParameter c then deviceParameters
      else if within ' ' '~' c then string
      else deviceParameters
    | deviceDesignation => if within '0' '~' c then string else deviceDesignation
    | string => if holdsTerminator c then text else string

end State

/-- What is shown of the characters of a text from a state on. -/
def shown : State → List Char → List Char
  | _, [] => []
  | s, c :: rest => if s.shows c then c :: shown .text rest else shown (s.next c) rest

def plain (s : String) : String :=
  String.ofList (shown .text s.toList)

def isPlain (c : Char) : Bool :=
  State.text.shows c

/-- What is shown of the characters of a stream from a state on. While `paused`, a sequence that a
shown character interrupted waits to be taken up again; a character beyond ASCII gives it up. -/
def streamed (paused : Bool) : State → List Char → List Char
  | _, [] => []
  | s, c :: rest =>
    if (paused && isPlain c) || s.shows c then
      if isAscii c then c :: streamed true s rest else c :: streamed false .text rest
    else streamed false (s.next c) rest

/-- What is left of a text without control sequences, read as a stream. -/
def plainStream (s : String) : String :=
  String.ofList (streamed false .text s.toList)

end Toolbox.Text.Control
