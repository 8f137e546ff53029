import Toolbox.Completion.Request
import Toolbox.Proofs.Text.Affix

/-!
# Requests decode their grammar

A request is a row of items and an ending. Items are given in any order and any number: a fragment
inline or spaced, a word, or some other argument that begins with a dash. `Request.parts` reads them
from the left with two words in view, and what it keeps of each sort is the first.

`Request.Item` and `Request.Ending` are that grammar as data: an item holds the proof that it is of
its sort, so each row of items *is* a request and no side condition is left. There is nothing else:
every list of arguments is a row of items with one of the three endings (`Request.exists_items`), and
reading one back gives the first of each sort (`Request.parts_items`).
-/

namespace Toolbox

open Text

namespace Request

/-! ## The grammar -/

/-- What may stand before the end of a request. -/
inductive Item where
  /-- `--cur=FRAGMENT`. -/
  | inline (fragment : String)
  /-- `--cur FRAGMENT`, whatever the fragment is. -/
  | spaced (fragment : String)
  | word (text : String) (plain : looksLikeFlag text = false)
  /-- An argument that looks like a flag and means nothing here. -/
  | other (arg : String) (dash : looksLikeFlag arg = true) (noEnd : arg ≠ "--")
      (noCur : arg ≠ "--cur") (noInline : startsWith arg "--cur=" = false)

/-- How a request ends. -/
inductive Ending where
  /-- With `--` and the tokens. -/
  | tokens (words : List String)
  | nothing
  /-- With a `--cur` that no fragment follows. -/
  | dangling

namespace Item

/-- The arguments of an item. -/
def args : Item → List String
  | inline fragment => ["--cur=" ++ fragment]
  | spaced fragment => ["--cur", fragment]
  | word text _ => [text]
  | other arg .. => [arg]

def inline? : Item → Option String
  | inline fragment => some fragment
  | _ => none

def spaced? : Item → Option String
  | spaced fragment => some fragment
  | _ => none

def word? : Item → Option String
  | word text _ => some text
  | _ => none

end Item

namespace Ending

/-- The arguments of an ending. -/
def args : Ending → List String
  | tokens words => "--" :: words
  | nothing => []
  | dangling => ["--cur"]

/-- The tokens that an ending brings. -/
def words : Ending → List String
  | tokens words => words
  | nothing | dangling => []

end Ending

/-! ## One item at a time -/

theorem parts_inline (fragment : String) (rest : List String) :
    parts (("--cur=" ++ fragment) :: rest) =
      { parts rest with inlineFragment := some fragment } := by
  have hend : "--cur=" ++ fragment ≠ "--" := by
    intro h
    have hstart := startsWith_append "--cur=" fragment
    rw [h] at hstart
    cases hstart
  conv => lhs; unfold parts
  simp only [hend, ↓reduceIte, after?_append]

theorem parts_spaced (fragment : String) (rest : List String) :
    parts ("--cur" :: fragment :: rest) =
      { parts rest with spacedFragment := some fragment } := by
  have hinline : after? "--cur=" "--cur" = none := after?_eq_none_iff.mpr rfl
  have hend : "--cur" ≠ "--" := by decide
  conv => lhs; unfold parts
  simp only [hend, ↓reduceIte, hinline]

theorem parts_word {text : String} (plain : looksLikeFlag text = false) (rest : List String) :
    parts (text :: rest) = { parts rest with shell := some text } := by
  have hne : ∀ arg, looksLikeFlag arg = true → text ≠ arg := by
    rintro arg hdash rfl
    rw [plain] at hdash
    cases hdash
  have hinline : startsWith text "--cur=" = false := by
    rw [← Bool.not_eq_true]
    intro h
    rw [looksLikeFlag, startsWith_trans h rfl] at plain
    cases plain
  have hend := hne "--" rfl
  have hcur := hne "--cur" rfl
  rw [looksLikeFlag] at plain
  conv => lhs; unfold parts
  simp only [hend, hcur, plain, ↓reduceIte, after?_eq_none_iff.mpr hinline, Bool.false_eq_true]

theorem parts_other {arg : String} (dash : looksLikeFlag arg = true) (noEnd : arg ≠ "--")
    (noCur : arg ≠ "--cur") (noInline : startsWith arg "--cur=" = false) (rest : List String) :
    parts (arg :: rest) = parts rest := by
  rw [looksLikeFlag] at dash
  conv => lhs; unfold parts
  simp only [noEnd, noCur, dash, ↓reduceIte, after?_eq_none_iff.mpr noInline]

theorem parts_ending (ending : Ending) : parts ending.args = { tokens := ending.words } := by
  cases ending with
  | tokens words =>
    unfold parts
    rfl
  | nothing => rfl
  | dangling => rfl

/-! ## Rows of items -/

/-- **Reading a request gives of each sort the first item**, and the tokens of its ending. -/
theorem parts_items (items : List Item) (ending : Ending) :
    parts (items.flatMap Item.args ++ ending.args) =
      { shell := items.findSome? Item.word?
        inlineFragment := items.findSome? Item.inline?
        spacedFragment := items.findSome? Item.spaced?
        tokens := ending.words } := by
  induction items with
  | nil => exact parts_ending ending
  | cons item rest ih =>
    rw [List.flatMap_cons, List.append_assoc]
    cases item with
    | inline fragment =>
      rw [Item.args, List.singleton_append, parts_inline, ih]
      rfl
    | spaced fragment =>
      rw [Item.args, List.cons_append, List.singleton_append, parts_spaced, ih]
      rfl
    | word text plain =>
      rw [Item.args, List.singleton_append, parts_word plain, ih]
      rfl
    | other arg dash noEnd noCur noInline =>
      rw [Item.args, List.singleton_append, parts_other dash noEnd noCur noInline, ih]
      rfl

/-- Every list of arguments is a row of items and an ending. -/
theorem exists_items (args : List String) :
    ∃ items ending, args = List.flatMap Item.args items ++ Ending.args ending := by
  fun_induction parts args with
  | case1 => exact ⟨[], .nothing, rfl⟩
  | case2 rest => exact ⟨[], .tokens rest, rfl⟩
  | case3 arg rest hend fragment hinline _ ih =>
    obtain ⟨items, ending, rfl⟩ := ih
    rw [after?_eq_some_iff.mp hinline]
    exact ⟨.inline fragment :: items, ending, rfl⟩
  | case4 => exact ⟨[], .dangling, rfl⟩
  | case5 fragment rest _ _ _ ih =>
    obtain ⟨items, ending, rfl⟩ := ih
    exact ⟨.spaced fragment :: items, ending, rfl⟩
  | case6 arg rest hend hinline hcur hdash ih =>
    obtain ⟨items, ending, rfl⟩ := ih
    exact ⟨.other arg hdash hend hcur (after?_eq_none_iff.mp hinline) :: items, ending, rfl⟩
  | case7 arg rest hend hinline hcur hdash _ ih =>
    obtain ⟨items, ending, rfl⟩ := ih
    rw [Bool.not_eq_true] at hdash
    exact ⟨.word arg hdash :: items, ending, rfl⟩

theorem ofArgs_items (items : List Item) (ending : Ending) :
    ofArgs (items.flatMap Item.args ++ ending.args) =
      { shell := items.findSome? Item.word?
        line :=
          { tokens := ending.words
            fragment := ((items.findSome? Item.inline?).or
              (items.findSome? Item.spaced?)).getD "" } } := by
  rw [ofArgs, parts_items]
  cases items.findSome? Item.inline? <;> rfl

/-- **Requests decode exactly their grammar.** Every list of arguments is a row of items and an
ending. It is read as the first word, as the fragment of the first inline item, or else of the first
spaced one, or else the empty one, and as the tokens of its ending. So a shell, a fragment and tokens
are found again however the fragment was given. -/
theorem ofArgs_decodes (items : List Item) (ending : Ending) :
    ofArgs (items.flatMap Item.args ++ ending.args) =
        { shell := items.findSome? Item.word?
          line :=
            { tokens := ending.words
              fragment := ((items.findSome? Item.inline?).or
                (items.findSome? Item.spaced?)).getD "" } } ∧
      (∀ args, ∃ items ending, args = List.flatMap Item.args items ++ Ending.args ending) ∧
      ∀ shell fragment tokens, looksLikeFlag shell = false →
        ofArgs ([shell, "--cur", fragment, "--"] ++ tokens) =
            { shell := some shell, line := { tokens, fragment } } ∧
          ofArgs ([shell, "--cur=" ++ fragment, "--"] ++ tokens) =
            { shell := some shell, line := { tokens, fragment } } := by
  refine ⟨ofArgs_items items ending, exists_items, ?_⟩
  intro shell fragment tokens plain
  constructor
  · exact ofArgs_items [.word shell plain, .spaced fragment] (.tokens tokens)
  · exact ofArgs_items [.word shell plain, .inline fragment] (.tokens tokens)

/-- After a spaced `--cur` even `--` is a fragment. -/
example : ofArgs ["zsh", "--cur", "--", "--", "list", "--"] =
    { shell := some "zsh", line := { tokens := ["list", "--"], fragment := "--" } } := by
  decide

end Request

end Toolbox
