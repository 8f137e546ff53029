/-!
# Reading UTF-8

Octets are read one at a time by a machine that knows, inside a character, how many octets are
owed and which values the next one may have. A sequence of octets is thus cut into pieces, each a
character or a malformed run: the longest beginning of a character that the next octet rules out.
Strict reading wants no malformed piece; lenient reading puts U+FFFD for each.
-/

namespace Toolbox.Text.Utf8

/-- Where the machine stands between octets. -/
inductive State where
  /-- Between characters. -/
  | start
  /-- Inside a character: the bits read so far, how many octets are owed, and the least and the
  greatest value of the next one. -/
  | inside (bits : Nat) (owed : Nat) (low high : Nat)
  deriving DecidableEq, Repr

/-- What one octet, met between characters, begins: a whole character, a longer one, or nothing. -/
def begin (b : Nat) : Option Char × State :=
  if b ≤ 0x7F then (some (Char.ofNat b), .start)
  else if 0xC2 ≤ b ∧ b ≤ 0xDF then (none, .inside (b - 0xC0) 1 0x80 0xBF)
  else if b = 0xE0 then (none, .inside 0 2 0xA0 0xBF)
  else if b = 0xED then (none, .inside 0xD 2 0x80 0x9F)
  else if 0xE1 ≤ b ∧ b ≤ 0xEF then (none, .inside (b - 0xE0) 2 0x80 0xBF)
  else if b = 0xF0 then (none, .inside 0 3 0x90 0xBF)
  else if 0xF1 ≤ b ∧ b ≤ 0xF3 then (none, .inside (b - 0xF0) 3 0x80 0xBF)
  else if b = 0xF4 then (none, .inside 4 3 0x80 0x8F)
  else (none, .start)

/-- The pieces an octet completes when met between characters, and the state it leaves. An octet
that neither is nor begins a character is a malformed piece of its own. -/
def fromStart (b : Nat) : List (Option Char) × State :=
  match begin b with
  | (some c, q) => ([some c], q)
  | (none, .start) => ([none], .start)
  | (none, q) => ([], q)

/-- One octet: the pieces it completes and the state after it. An octet that the character under
way rules out closes that character as malformed and is read again between characters. -/
def step : State → Nat → List (Option Char) × State
  | .start, b => fromStart b
  | .inside bits owed low high, b =>
    if low ≤ b ∧ b ≤ high then
      let bits := bits * 64 + (b - 0x80)
      if owed ≤ 1 then ([some (Char.ofNat bits)], .start)
      else ([], .inside bits (owed - 1) 0x80 0xBF)
    else
      let (pieces, q) := fromStart b
      (none :: pieces, q)

/-- The pieces of a sequence of octets; a character still under way at the end is malformed. -/
def pieces : State → List UInt8 → List (Option Char)
  | .start, [] => []
  | .inside .., [] => [none]
  | q, b :: rest =>
    let (done, q') := step q b.toNat
    done ++ pieces q' rest

/-- The text that the octets spell, when they are well formed. -/
def decode? (octets : List UInt8) : Option String :=
  ((pieces .start octets).mapM id).map String.ofList

/-- The text that the octets spell, with U+FFFD for each malformed piece. -/
def decodeLossy (octets : List UInt8) : String :=
  String.ofList ((pieces .start octets).map (·.getD (Char.ofNat 0xFFFD)))

end Toolbox.Text.Utf8
