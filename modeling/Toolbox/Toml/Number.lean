import Toolbox.Toml.Text
import Toolbox.Toml.Value

/-!
# Numbers

Integers have 64 bits and may be written in four bases; every other number is a real. Underscores
may stand between digits. A positive real too large for the binary64 format is refused.
-/

namespace Toolbox.Toml

open Scan

/-- Digits of a class, with single underscores allowed between them. -/
def digits (isDigit : Char → Bool) : Scan (List Char) := do
  let first ← satisfy isDigit
  return first :: (← many (satisfy isDigit <|> (do char '_'; satisfy isDigit)))

/-- Decimal digits of which only a lone zero may come first. -/
def wholeDigits : Scan (List Char) :=
  (do let _ ← ahead (satisfy fun c => '1' ≤ c && c ≤ '9'); digits Char.isDigit) <|>
  (do return [← satisfy Char.isDigit])

/-- A sign, if any; whether it is a minus. -/
def sign : Scan Bool :=
  (do char '-'; return true) <|> (do char '+'; return false) <|> pure false

def fitsInteger (n : Int) : Bool :=
  decide (Int64.minValue.toInt ≤ n ∧ n ≤ Int64.maxValue.toInt)

def basedInteger (letter : Char) (base : Nat) (isDigit : Char → Bool) : Scan Int := do
  word ['0', letter]
  let n : Int := digitsValue base (← digits isDigit)
  if fitsInteger n then return n else failure

def decimalInteger : Scan Int := do
  let negative ← sign
  let magnitude : Int := digitsValue 10 (← wholeDigits)
  let n := if negative then -magnitude else magnitude
  if fitsInteger n then return n else failure

def integer : Scan Int :=
  basedInteger 'x' 16 isHexDigit <|>
  basedInteger 'o' 8 (fun c => '0' ≤ c && c ≤ '7') <|>
  basedInteger 'b' 2 (fun c => c = '0' || c = '1') <|>
  decimalInteger

/-- Whether `mantissa * 10 ^ exponent` rounds to infinity in the binary64 format, that is, reaches
half a step beyond the largest finite value. The order of magnitude settles all but one case, so
that no large power is computed in vain. -/
def overflows (mantissa : Nat) (exponent : Int) : Bool :=
  let limit := Nat.pow 2 1024 - Nat.pow 2 970
  let magnitude := (Nat.toDigits 10 mantissa).length + exponent
  if mantissa = 0 ∨ magnitude < 309 then false
  else if 309 < magnitude then true
  else if 0 ≤ exponent then decide (limit ≤ mantissa * Nat.pow 10 exponent.toNat)
  else decide (limit * Nat.pow 10 (-exponent).toNat ≤ mantissa)

def exponent : Scan Int := do
  let _ ← satisfy fun c => c = 'e' || c = 'E'
  let negative ← sign
  let n : Int := digitsValue 10 (← digits Char.isDigit)
  return if negative then -n else n

def fraction : Scan (List Char) := do
  char '.'
  digits Char.isDigit

/-- A real in digits: with a fraction, an exponent or both. -/
def finiteReal : Scan Real := do
  let negative ← sign
  let whole ← wholeDigits
  let (behind, shift) ←
    (do return ([], ← exponent)) <|>
    (do
      let behind ← fraction
      return (behind, (← optional exponent).getD 0))
  let mantissa := digitsValue 10 (whole ++ behind)
  let shift := shift - behind.length
  if !negative && overflows mantissa shift then failure
  else return .finite negative mantissa shift

def namedReal : Scan Real := do
  let negative ← sign
  (do word ['i', 'n', 'f']; return .infinite negative) <|>
  (do word ['n', 'a', 'n']; return .notANumber)

def real : Scan Real :=
  finiteReal <|> namedReal

end Toolbox.Toml
