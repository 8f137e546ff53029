import Toolbox.Tree.Node

/-!
# Walking the committed words

The words before the cursor lead from the root to a command. A word that begins with a dash stays
at the command; when it is a flag there with a value still to come, the next word is that value,
whatever it looks like. Every other word must name a child.

`Node.walk` follows the words; `Walks` says the same as a relation, one rule for each way a word is
read, and `walk_eq_ok_iff` is the agreement of the two.
-/

namespace Toolbox

open Text

/-- Whether a word is written like a flag. -/
def looksLikeFlag (word : String) : Bool :=
  startsWith word "-"

/-- A word that no child of the command `parent` goes by. -/
structure UnknownWord where
  word : String
  parent : String
  deriving DecidableEq, Repr

namespace Node

/-- Whether `word`, written without `=`, is a flag of `n` that a value follows. -/
def awaitsValue (n : Node) (word : String) : Bool :=
  !holds '=' word && (n.findFlag word).any (·.takesValue)

/-- The command that the words lead to from `n`. -/
def walk : Node → List String → Except UnknownWord Node
  | n, [] => .ok n
  | n, word :: rest =>
    if looksLikeFlag word then
      if n.awaitsValue word then
        match rest with
        | [] => .ok n
        | _ :: rest => n.walk rest
      else n.walk rest
    else
      match n.findChild word with
      | none => .error ⟨word, n.name⟩
      | some child => child.walk rest

end Node

/-- The words, cut into names of children, flags, and flags with their values, lead from one command
to another. -/
inductive Walks : Node → List String → Node → Prop where
  | done {n : Node} : Walks n [] n
  /-- A name or alias of a child moves to that child. -/
  | child {n c m : Node} {word : String} {rest : List String} :
      looksLikeFlag word = false → n.findChild word = some c → Walks c rest m →
      Walks n (word :: rest) m
  /-- A flag that no value follows stays. -/
  | flag {n m : Node} {word : String} {rest : List String} :
      looksLikeFlag word = true → n.awaitsValue word = false → Walks n rest m →
      Walks n (word :: rest) m
  /-- A flag and its value stay. -/
  | valued {n m : Node} {word value : String} {rest : List String} :
      looksLikeFlag word = true → n.awaitsValue word = true → Walks n rest m →
      Walks n (word :: value :: rest) m
  /-- A flag whose value is still to come stays, as the last word. -/
  | pending {n : Node} {word : String} :
      looksLikeFlag word = true → n.awaitsValue word = true → Walks n [word] n

namespace Node

/-- One word at a time: a flag is passed over, with the word after it if that is its value. -/
theorem walk_cons (n : Node) (word : String) (rest : List String) :
    n.walk (word :: rest) =
      if looksLikeFlag word then n.walk (if n.awaitsValue word then rest.tail else rest)
      else
        match n.findChild word with
        | none => .error ⟨word, n.name⟩
        | some child => child.walk rest := by
  rw [walk.eq_def]
  cases rest with
  | nil => cases hv : n.awaitsValue word <;> simp [walk, hv]
  | cons value rest => cases hv : n.awaitsValue word <;> simp [hv]

/-- Following the words and relating their two ends agree. -/
theorem walk_eq_ok_iff {n m : Node} {words : List String} :
    n.walk words = .ok m ↔ Walks n words m := by
  constructor
  · intro h
    fun_induction walk n words with
    | case1 n => cases h; exact .done
    | case2 n word hf hv => cases h; exact .pending hf hv
    | case3 n word hf hv value rest ih => exact .valued hf hv (ih h)
    | case4 n word rest hf hv ih => exact .flag hf (by simpa using hv) (ih h)
    | case5 => cases h
    | case6 n word rest hf c hc ih => exact .child (by simpa using hf) hc (ih h)
  · intro h
    induction h with
    | done => rfl
    | child hf hc _ ih => simp [walk_cons, hf, hc, ih]
    | flag hf hv _ ih => simp [walk_cons, hf, hv, ih]
    | valued hf hv _ ih => simp [walk_cons, hf, hv, ih]
    | pending hf hv => simp [walk, hf, hv]

end Node

end Toolbox
