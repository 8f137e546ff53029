import Toolbox.Surface.Equip
import Toolbox.Surface.Help
import Toolbox.Surface.Refusal

/-!
# Reading a command line

The words of a command line are read one after the other at a command that has been equipped. A word
names a subcommand, which then reads the rest; or it is a flag, a cluster of short flags, the value
of the flag before it, or a positional parameter. After `--`, and after the first value of a
parameter that takes the rest, every word is a positional parameter.

What was given at each level is checked once the words are read, the innermost level first.
-/

namespace Toolbox.Surface

open Text

/-- A parameter that was given, with its values. -/
structure Given where
  id : String
  values : List String := []
  deriving DecidableEq, Repr

/-- What was given at one command. -/
structure Level where
  command : String
  given : List Given := []
  deriving DecidableEq, Repr

namespace Level

def has (l : Level) (id : String) : Bool :=
  l.given.any (·.id = id)

/-- The values of a parameter, in the order in which they were given. -/
def values (l : Level) (id : String) : List String :=
  (l.given.filter (·.id = id)).flatMap (·.values)

def value? (l : Level) (id : String) : Option String :=
  (l.values id).head?

end Level

/-- What the next word may be, other than a flag. -/
inductive Focus where
  /-- The name of a subcommand, or a positional parameter. -/
  | free
  /-- The value of this option. -/
  | value (p : Parameter)
  /-- A further value of this positional parameter. -/
  | more (p : Parameter)
  deriving DecidableEq, Repr

/-- How far reading has come at one command. -/
structure Reading where
  given : List Given := []
  /-- The parameter that is collecting values, and its values so far. -/
  collecting : Option (Parameter × List String) := none
  focus : Focus := .free
  /-- The number of positional parameters that are done with. -/
  position : Nat := 0
  /-- Whether every further word is a positional parameter. -/
  positionalsOnly : Bool := false
  deriving DecidableEq, Repr

/-- Reading that can come to an end early. -/
abbrev Attempt (α : Type) := Except Stop α

def refuse {α : Type} (why : Refusal) : Attempt α :=
  .error (.refused why)

namespace Parameter

/-- A value that the parameter does not admit ends the reading. -/
def allow (p : Parameter) (value : String) : Attempt Unit :=
  match p.values with
  | .text => .ok ()
  | .path => if value = "" then refuse (.missingValue p.shown) else .ok ()
  | .choice choices =>
    if choices.any (·.name = value) then .ok ()
    else if value = "" then refuse (.missingValue p.shown)
    else refuse (.invalidValue value p.shown)

def allowAll (p : Parameter) : List String → Attempt Unit
  | [] => .ok ()
  | v :: rest =>
    match p.allow v with
    | .error e => .error e
    | .ok () => p.allowAll rest

end Parameter

namespace Reading

/-- Whether the word at hand may begin with a dash and still be a value of what is in focus. -/
def focusTakesRest (r : Reading) : Bool :=
  match r.focus with
  | .free => false
  | .value p | .more p => p.takesRest

/-- The reading after a parameter has been given with these values. -/
def record (c : Command) (path : String) (long : Bool) (p : Parameter) (values : List String)
    (r : Reading) : Attempt Reading :=
  match p.action with
  | .help => .error (.asked (Help.page c path long))
  | .version => .error (.asked (c.name ++ " " ++ c.version.getD "" ++ "\n"))
  | .set =>
    if values = [] then refuse (.missingValue p.shown)
    else if r.given.any (·.id = p.id) then refuse (.repeatedArgument p.shown)
    else
      match p.allowAll values with
      | .error e => .error e
      | .ok () => .ok { r with given := r.given ++ [{ id := p.id, values }] }
  | .append =>
    if values = [] then refuse (.missingValue p.shown)
    else
      match p.allowAll values with
      | .error e => .error e
      | .ok () => .ok { r with given := r.given ++ [{ id := p.id, values }] }
  | .setTrue | .setFalse =>
    if r.given.any (·.id = p.id) then refuse (.repeatedArgument p.shown)
    else .ok { r with given := r.given ++ [{ id := p.id }] }
  | .count => .ok { r with given := r.given ++ [{ id := p.id }] }

/-- The reading after the parameter that was collecting values has been given. -/
def settle (c : Command) (path : String) (r : Reading) : Attempt Reading :=
  match r.collecting with
  | none => .ok r
  | some (p, values) => record c path true p values { r with collecting := none }

/-- The reading after a parameter has been given, and before it the one that was collecting. -/
def give (c : Command) (path : String) (long : Bool) (p : Parameter) (values : List String)
    (r : Reading) : Attempt Reading :=
  match r.settle c path with
  | .error e => .error e
  | .ok r => record c path long p values { r with focus := .free }

def await (c : Command) (path : String) (p : Parameter) (r : Reading) : Attempt Reading :=
  match r.settle c path with
  | .error e => .error e
  | .ok r => .ok { r with collecting := some (p, []), focus := .value p }

def positional? (c : Command) (r : Reading) : Option Parameter :=
  c.positionals[r.position]?

/-- Whether the positional parameter that comes next takes words that begin with a dash. -/
def positionalTakesRest (c : Command) (r : Reading) : Bool :=
  (r.positional? c).any (·.takesRest)

/-- Why a word that is no positional parameter is refused. -/
def strayWord (c : Command) (r : Reading) (word : String) : Refusal :=
  if r.positionalsOnly && (c.find? word).isSome then .unexpectedArgument word
  else if !c.subcommands.isEmpty && c.positionals.isEmpty then .unrecognizedSubcommand word
  else .unexpectedArgument word

/-- The values so far of a positional parameter that takes many and is collecting them. -/
def collected? (p : Parameter) (r : Reading) : Option (List String) :=
  match r.collecting with
  | some (q, values) => if q.id = p.id ∧ p.action = .append then some values else none
  | none => none

/-- The reading when a positional parameter has these values so far. One that takes many stays in
focus; after any other the next one comes. -/
def hold (p : Parameter) (values : List String) (r : Reading) : Reading :=
  let r := { r with
    collecting := some (p, values), positionalsOnly := r.positionalsOnly || p.takesRest }
  if p.action = .append then { r with focus := .more p }
  else { r with focus := .free, position := r.position + 1 }

def takePositional (c : Command) (path : String) (word : String) (r : Reading) :
    Attempt Reading :=
  match r.positional? c with
  | none => refuse (r.strayWord c word)
  | some p =>
    match r.collected? p with
    | some values => .ok (r.hold p (values ++ [word]))
    | none =>
      match r.settle c path with
      | .error e => .error e
      | .ok r => .ok (r.hold p [word])

/-- The word is a value, of the option in focus or else of the next positional parameter. -/
def takeValue (c : Command) (path : String) (word : String) (r : Reading) : Attempt Reading :=
  match r.focus with
  | .value p =>
    let values := (r.collecting.map (·.2)).getD []
    .ok { r with collecting := some (p, values ++ [word]), focus := .free }
  | .free | .more _ => r.takePositional c path word

def takeLong (c : Command) (path : String) (word name : String) (attached : Option String)
    (r : Reading) : Attempt Reading :=
  match c.long? name, attached with
  | some p, some value =>
    if p.takesValues then r.give c path true p [value]
    else refuse (.unexpectedValue value p.shown)
  | some p, none => if p.takesValues then r.await c path p else r.give c path true p []
  | none, _ =>
    if r.positionalTakesRest c then r.takeValue c path word
    else refuse (.unexpectedArgument ("--" ++ name))

/-- A cluster of short flags. What follows an option in it is the option's value, after a `=` if
there is one. -/
def takeLetters (c : Command) (path : String) : List Char → Reading → Attempt Reading
  | [], r => .ok r
  | letter :: rest, r =>
    match c.short? letter with
    | none => refuse (.unexpectedArgument (String.ofList ['-', letter]))
    | some p =>
      if p.takesValues then
        match rest with
        | [] => r.await c path p
        | '=' :: value => r.give c path false p [String.ofList value]
        | value => r.give c path false p [String.ofList value]
      else
        match r.give c path false p [] with
        | .error e => .error e
        | .ok r => takeLetters c path rest r

def takeWord (c : Command) (path : String) (word : String) (r : Reading) : Attempt Reading :=
  if r.positionalsOnly then r.takePositional c path word
  else if r.focusTakesRest then r.takeValue c path word
  else
    match word.toList with
    | ['-', '-'] => .ok { r with positionalsOnly := true }
    | '-' :: '-' :: flag =>
      match cutList '=' flag with
      | some (name, value) =>
        r.takeLong c path word (String.ofList name) (some (String.ofList value))
      | none => r.takeLong c path word (String.ofList flag) none
    | '-' :: letter :: rest =>
      if r.positionalTakesRest c && (letter :: rest).any fun l => (c.short? l).isNone then
        r.takeValue c path word
      else r.takeLetters c path (letter :: rest)
    | _ => r.takeValue c path word

end Reading

namespace Command

/-- The ids of the parameters given that cannot stand beside `p`, by either one's declaration. -/
def rivals (c : Command) (given : List Given) (p : Parameter) : List Parameter :=
  c.parameters.filter fun q =>
    given.any (·.id = q.id) && (p.conflicts.contains q.id || q.conflicts.contains p.id)

/-- The first conflict among the parameters given, in the order in which they were given. -/
def conflict? (c : Command) (given : List Given) : Option Refusal :=
  given.findSome? fun g =>
    (c.parameters.find? (·.id = g.id)).bind fun p =>
      match c.rivals given p with
      | [] => none
      | rivals => some (.conflict p.shown (rivals.map (·.shown)))

/-- The level as it is accepted; `inner` tells whether a subcommand was called. -/
def accept (c : Command) (path : String) (r : Reading) (inner : Bool) : Attempt Level :=
  match r.settle c path with
  | .error e => .error e
  | .ok r =>
    if c.needsSubcommand && !inner && r.given.isEmpty then
      .error (.idle (Help.page c path false))
    else if c.needsSubcommand && !inner then refuse (.missingSubcommand path)
    else
      match c.conflict? r.given with
      | some why => refuse why
      | none =>
        if c.parameters.any fun p => p.required && !r.given.any (·.id = p.id) then
          refuse .missingArguments
        else .ok { command := c.name, given := r.given }

/-- The help page for the command that the words lead to. -/
def helpFor (c : Command) (path : String) : List String → Stop
  | [] => .asked (Help.page c path true)
  | word :: rest =>
    match c.find? word with
    | some s => s.helpFor (path ++ " " ++ s.name) rest
    | none => .refused (.unrecognizedSubcommand word)

def called? (c : Command) (r : Reading) (word : String) : Option Command :=
  match r.focus with
  | .free => if r.positionalsOnly then none else c.find? word
  | .value _ | .more _ => none

/-- The levels that the words give, from this command inwards. -/
def readFrom (c : Command) (path : String) (r : Reading) : List String → Attempt (List Level)
  | [] =>
    match c.accept path r false with
    | .error e => .error e
    | .ok level => .ok [level]
  | word :: rest =>
    match c.called? r word with
    | some s =>
      if s.name = helpName && c.helpSubcommand then .error (c.helpFor path rest)
      else
        match s.readFrom (path ++ " " ++ s.name) {} rest with
        | .error e => .error e
        | .ok inner =>
          match c.accept path r true with
          | .error e => .error e
          | .ok level => .ok (level :: inner)
    | none =>
      match r.takeWord c path word with
      | .error e => .error e
      | .ok r => c.readFrom path r rest

/-- The levels that the words after the program's name give. -/
def read (c : Command) (words : List String) : Attempt (List Level) :=
  c.forReading.readFrom c.name {} words

end Command

end Toolbox.Surface
