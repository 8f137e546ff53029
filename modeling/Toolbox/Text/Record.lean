import Toolbox.Text.Affix

/-!
# Comma separated records

A record is its fields with commas between them, closed by a newline. A field in which a comma, a
double quote or a newline occurs is put between double quotes, and each double quote in it is
written twice.
-/

namespace Toolbox.Text.Record

/-- Whether a field that holds this character is put between quotes. -/
def wantsQuotes (c : Char) : Bool :=
  c = ',' || c = '"' || c = '\n'

def doubleQuotes (cs : List Char) : List Char :=
  cs.flatMap fun c => if c = '"' then ['"', '"'] else [c]

def field (s : String) : String :=
  if s.toList.any wantsQuotes then String.ofList ('"' :: doubleQuotes s.toList ++ ['"']) else s

def write (fields : List String) : String :=
  joinWith "," (fields.map field) ++ "\n"

end Toolbox.Text.Record
