import Toolbox.Completion.Offer

/-!
# Completion requests

A shell asks with `SHELL --cur FRAGMENT -- TOKENS…`, or with `--cur=FRAGMENT` in one word. Reading
never fails: what is missing is empty, and what is not understood is passed over.
-/

namespace Toolbox

open Text

/-- A request as the shell sent it. -/
structure Request where
  shell : Option String := none
  line : Line := {}
  deriving DecidableEq, Repr

namespace Request

/-- What the arguments of a request give: of each sort the first that occurs. -/
structure Parts where
  shell : Option String := none
  /-- The fragment of `--cur=FRAGMENT`. -/
  inlineFragment : Option String := none
  /-- The fragment of `--cur FRAGMENT`. -/
  spacedFragment : Option String := none
  tokens : List String := []
  deriving DecidableEq, Repr

/-- The parts of a request. After `--` all is tokens, and the word after `--cur` is the fragment
whatever it is. -/
def parts : List String → Parts
  | [] => {}
  | arg :: rest =>
    if arg = "--" then { tokens := rest }
    else
      match after? "--cur=" arg with
      | some fragment => { parts rest with inlineFragment := some fragment }
      | none =>
        if arg = "--cur" then
          match rest with
          | [] => {}
          | fragment :: rest => { parts rest with spacedFragment := some fragment }
        else if startsWith arg "-" then parts rest
        else { parts rest with shell := some arg }

/-- The request that the arguments spell. A fragment given inline wins over a spaced one. -/
def ofArgs (args : List String) : Request :=
  let p := parts args
  { shell := p.shell
    line := { tokens := p.tokens, fragment := (p.inlineFragment <|> p.spacedFragment).getD "" } }

end Request

end Toolbox
