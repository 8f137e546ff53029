/-!
# Beginnings of words

What a word starts with, and where it is cut. A text is read through its list of characters, so
every function here is one of the list functions that the library of lists already has lemmas for.
-/

namespace Toolbox.Text

/-- Whether `s` begins with the characters of `start`. -/
def startsWith (s start : String) : Bool :=
  start.toList.isPrefixOf s.toList

/-- What follows `start` in a text that begins with it. -/
def after? (start s : String) : Option String :=
  if startsWith s start then some (String.ofList (s.toList.drop start.toList.length)) else none

/-- Whether the character `c` stands anywhere in `s`. -/
def holds (c : Char) (s : String) : Bool :=
  s.toList.contains c

/-- The characters before the first `sep` and those after it; `none` when `sep` does not occur. -/
def cutList (sep : Char) : List Char → Option (List Char × List Char)
  | [] => none
  | c :: cs =>
    if c = sep then some ([], cs)
    else (cutList sep cs).map fun p => (c :: p.1, p.2)

/-- The text before the first `sep` and the text after it; `none` when `sep` does not occur. -/
def cutAt (sep : Char) (s : String) : Option (String × String) :=
  (cutList sep s.toList).map fun p => (String.ofList p.1, String.ofList p.2)

def dropDashes (s : String) : String :=
  String.ofList (s.toList.dropWhile (· = '-'))

/-- The texts one after the other with `sep` between neighbours. -/
def joinWith (sep : String) : List String → String
  | [] => ""
  | [s] => s
  | s :: t :: rest => s ++ sep ++ joinWith sep (t :: rest)

/-- The texts one after the other, each closed by a newline. -/
def lines : List String → String
  | [] => ""
  | s :: rest => s ++ "\n" ++ lines rest

theorem startsWith_empty (s : String) : startsWith s "" = true := rfl

/-- A text begins with `start` exactly when it is `start` with something after it. -/
theorem startsWith_iff {s start : String} :
    startsWith s start = true ↔ ∃ rest, s.toList = start.toList ++ rest := by
  simp only [startsWith, List.isPrefixOf_iff_prefix, List.IsPrefix]
  exact ⟨fun ⟨r, h⟩ => ⟨r, h.symm⟩, fun ⟨r, h⟩ => ⟨r, h.symm⟩⟩

/-- A list is cut at the first `sep` in it. -/
theorem cutList_eq_some_iff {sep : Char} {cs front back : List Char} :
    cutList sep cs = some (front, back) ↔ cs = front ++ sep :: back ∧ sep ∉ front := by
  induction cs generalizing front with
  | nil => simp [cutList]
  | cons c cs ih =>
    by_cases hc : c = sep
    · subst hc
      cases front with
      | nil => simp [cutList, eq_comm]
      | cons d front =>
        simp only [cutList, ↓reduceIte, Option.some.injEq, Prod.mk.injEq, List.cons_append,
          List.cons.injEq, List.mem_cons, not_or, reduceCtorEq, false_and, false_iff, not_and]
        exact fun h hd => absurd h.1 hd
    · cases front with
      | nil => simp [cutList, hc]
      | cons d front =>
        simp only [cutList, hc, ↓reduceIte, Option.map_eq_some_iff, Prod.exists, Prod.mk.injEq,
          List.cons.injEq, List.cons_append, List.mem_cons, not_or]
        constructor
        · rintro ⟨f, b, h, ⟨rfl, rfl⟩, rfl⟩
          obtain ⟨rfl, hn⟩ := ih.1 h
          exact ⟨⟨rfl, rfl⟩, fun h' => hc h'.symm, hn⟩
        · rintro ⟨⟨rfl, h⟩, -, hn⟩
          exact ⟨front, back, ih.2 ⟨h, hn⟩, ⟨rfl, rfl⟩, rfl⟩

/-- Only a list without `sep` cannot be cut at `sep`. -/
theorem cutList_eq_none_iff {sep : Char} {cs : List Char} :
    cutList sep cs = none ↔ sep ∉ cs := by
  induction cs with
  | nil => simp [cutList]
  | cons c cs ih =>
    by_cases hc : c = sep
    · simp [cutList, hc]
    · simp [cutList, hc, ih, eq_comm (a := sep)]

end Toolbox.Text
