import Toolbox.Keyed

/-!
# JSON values

A number is an integer or a decimal, which is a mantissa and a number of places. A decimal is written
with its own digits, laid out like a floating point number. It is not rounded to one, so its digits are
taken to be the shortest that tell one from its neighbours, and a zero has no sign. The members of an
object are listed in key order, which `Json.object` brings about.
-/

namespace Toolbox

/-- A JSON value. -/
inductive Json where
  | null
  | bool (b : Bool)
  | int (n : Int)
  /-- The number `mantissa / 10 ^ places`. -/
  | decimal (mantissa : Int) (places : Nat)
  | str (s : String)
  | arr (items : List Json)
  | obj (members : List (String × Json))
  deriving Repr, Inhabited

/-- The object with these members; of members under one key the last counts. -/
def Json.object (members : List (String × Json)) : Json :=
  .obj (Keyed.ofPairs members)

end Toolbox
