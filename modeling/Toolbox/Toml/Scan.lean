/-!
# Scanning

A scanner reads something off the front of a list of characters, or fails and reads nothing.
Scanners are chained with `do` and tried one after the other with `<|>`. `many` repeats a scanner as
long as it succeeds and reads at least one character, so it always comes to an end.
-/

namespace Toolbox.Toml

/-- Reads an `α` off the front of a text. -/
abbrev Scan (α : Type) := StateT (List Char) Option α

namespace Scan

variable {α β : Type}

def satisfy (p : Char → Bool) : Scan Char
  | [] => none
  | c :: rest => if p c then some (c, rest) else none

def char (c : Char) : Scan Unit
  | [] => none
  | d :: rest => if d = c then some ((), rest) else none

def word : List Char → Scan Unit
  | [] => pure ()
  | c :: cs => do char c; word cs

def takeWhile (p : Char → Bool) : Scan (List Char) := fun s =>
  some (s.takeWhile p, s.dropWhile p)

/-- Exactly `n` characters of a class. -/
def count (p : Char → Bool) : Nat → Scan (List Char)
  | 0 => pure []
  | n + 1 => do
    let c ← satisfy p
    return c :: (← count p n)

def atEnd : Scan Unit
  | [] => some ((), [])
  | _ :: _ => none

/-- Succeeds where `p` would and reads nothing. -/
def ahead (p : Scan α) : Scan Unit := fun s =>
  (p s).map fun _ => ((), s)

/-- Everything that repeating `p` reads, and what is left. -/
def repeated (p : Scan α) (s : List Char) : List α × List Char :=
  match p s with
  | none => ([], s)
  | some (a, rest) =>
    if rest.length < s.length then
      let more := repeated p rest
      (a :: more.1, more.2)
    else ([], s)
termination_by s.length

/-- As many `p` as there are. -/
def many (p : Scan α) : Scan (List α) := fun s => some (repeated p s)

/-- One `p`, and more of them after separators. -/
def separated (p : Scan α) (separator : Scan β) : Scan (List α) := do
  let a ← p
  return a :: (← many (do let _ ← separator; p))

def whole? (p : Scan α) (s : String) : Option α :=
  match p s.toList with
  | some (a, []) => some a
  | _ => none

end Scan

end Toolbox.Toml
