/-!
# Digits

Numbers written out in decimal and hexadecimal.
-/

namespace Toolbox.Text

def natDigits (n : Nat) : String :=
  String.ofList (Nat.toDigits 10 n)

/-- An integer in decimal, with a minus sign when it is negative. -/
def intDigits : Int → String
  | .ofNat n => natDigits n
  | .negSucc n => "-" ++ natDigits (n + 1)

/-- Digits with a point behind the first `point` of them, or that far before them. A point close to
the digits is written with zeros, one farther away as a power of ten. -/
def pointed (digits : List Char) (point : Int) : List Char :=
  if 0 < point ∧ point ≤ 16 then
    let fraction := digits.drop point.toNat
    digits.take point.toNat ++ List.replicate (point.toNat - digits.length) '0' ++
      '.' :: (if fraction = [] then ['0'] else fraction)
  else if -5 < point ∧ point ≤ 0 then
    '0' :: '.' :: List.replicate (-point).toNat '0' ++ digits
  else
    let fraction := digits.drop 1
    digits.take 1 ++ (if fraction = [] then [] else '.' :: fraction) ++
      'e' :: (intDigits (point - 1)).toList

/-- The number `mantissa / 10 ^ places` without zeros at the end, but with a digit behind a point. -/
def decimalDigits (mantissa : Int) (places : Nat) : String :=
  if mantissa = 0 then "0.0"
  else
    let all := Nat.toDigits 10 mantissa.natAbs
    let digits := (all.reverse.dropWhile (· = '0')).reverse
    String.ofList ((if mantissa < 0 then ['-'] else []) ++ pointed digits (all.length - places))

example : [decimalDigits (-250) 3, decimalDigits 10 1, decimalDigits 12 8, decimalDigits 1 0] =
    ["-0.25", "1.0", "1.2e-7", "1.0"] := by
  decide

def hexDigit (n : Nat) : Char :=
  (Nat.toDigits 16 (n % 16)).headD '0'

end Toolbox.Text
