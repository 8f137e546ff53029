import Toolbox.Toml.Blank

/-!
# Texts

The four ways to write a text: on one line or over several, with escapes between double quotes or
verbatim between single ones.
-/

namespace Toolbox.Toml

open Scan

def isHexDigit (c : Char) : Bool :=
  c.isDigit || ('a' ≤ c && c ≤ 'f') || ('A' ≤ c && c ≤ 'F')

def hexValue (c : Char) : Nat :=
  if c.isDigit then c.toNat - '0'.toNat
  else if 'a' ≤ c then c.toNat - 'a'.toNat + 10
  else c.toNat - 'A'.toNat + 10

def digitsValue (base : Nat) (digits : List Char) : Nat :=
  digits.foldl (fun n c => n * base + hexValue c) 0

/-- The character named by a code point of `n` hexadecimal digits; surrogates name none. -/
def codePoint (n : Nat) : Scan Char := do
  let value := digitsValue 16 (← count isHexDigit n)
  if value < 0xD800 ∨ (0xDFFF < value ∧ value < 0x110000) then return Char.ofNat value
  else failure

def escape : Scan Char := do
  char '\\'
  match ← satisfy fun _ => true with
  | 'b' => return '\x08'
  | 't' => return '\t'
  | 'n' => return '\n'
  | 'f' => return '\x0c'
  | 'r' => return '\r'
  | '"' => return '"'
  | '\\' => return '\\'
  | 'u' => codePoint 4
  | 'U' => codePoint 8
  | _ => failure

/-- A character that stands for itself before a closing `quote`. With double quotes a backslash
does not. -/
def isVerbatim (quote : Char) (c : Char) : Bool :=
  isPlain c && c ≠ quote && !(quote = '"' && c = '\\')

def piece (quote : Char) : Scan (List Char) :=
  (do return [← satisfy (isVerbatim quote)]) <|>
  (do if quote = '"' then return [← escape] else failure)

/-- A backslash at the end of a line: it, the line end and all blanks and line ends after it
contribute nothing. -/
def lineJoin : Scan Unit := do
  char '\\'
  spaces
  newline
  let _ ← many ((do let _ ← satisfy isSpace) <|> newline)

/-- One or two quotes with something else after them stand for themselves. -/
def innerQuotes (quote : Char) : Scan (List Char) := do
  let quotes ← takeWhile (· = quote)
  if quotes.length = 1 ∨ quotes.length = 2 then return quotes else failure

/-- A piece of a text over several lines. Every line end contributes a newline. -/
def linesPiece (quote : Char) : Scan (List Char) :=
  (do newline; return ['\n']) <|>
  (do if quote = '"' then lineJoin; return [] else failure) <|>
  piece quote <|>
  innerQuotes quote

def lineText (quote : Char) : Scan String := do
  char quote
  let pieces ← many (piece quote)
  char quote
  return String.ofList pieces.flatten

/-- A text over several lines. A line end right after the opening quotes does not count; of three to
five quotes at the end the last three close the text. -/
def linesText (quote : Char) : Scan String := do
  word [quote, quote, quote]
  let _ ← optional newline
  let pieces ← many (linesPiece quote)
  let quotes ← takeWhile (· = quote)
  if 3 ≤ quotes.length ∧ quotes.length ≤ 5 then
    return String.ofList (pieces.flatten ++ quotes.drop 3)
  else failure

def text : Scan String :=
  linesText '"' <|> lineText '"' <|> linesText '\'' <|> lineText '\''

end Toolbox.Toml
