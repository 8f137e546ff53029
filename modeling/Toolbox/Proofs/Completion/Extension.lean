import Toolbox.Proofs.Completion.Answer

/-!
# A fragment and the words it may become

While a word is being typed it is held against the *beginnings* of the children's names; once it is
committed the walk looks for a child of *exactly* that name. This file shows that the first test
foretells the second: a fragment is refused exactly when every word that begins with it will be.

The two sides meet at the command `n` that the committed words lead to. A fragment is refused there
when no name of a child begins with it (`Node.offer_kind_eq_invalid_iff`), a word when it is no name
of a child (`Node.findChild_eq_none_iff`). The words must not end in a flag: a flag with a value
still to come would take the new word for that value.
-/

namespace Toolbox

namespace Node

theorem offer_blank_kind_ne_invalid (n : Node) (previous : Option String) :
    (n.offer previous "").kind ≠ .invalid := by
  intro h
  exact (offer_kind_eq_invalid_iff.mp h).2.2.1 rfl

end Node

namespace Tree

/-- Committed words are refused exactly when the walk cannot read them. -/
theorem answer_blank_kind_eq_invalid_iff {t : Tree} {words : List String} :
    (t.answer words "").kind = .invalid ↔ ∃ e, t.root.walk words = .error e := by
  cases h : t.root.walk words with
  | error e =>
    rw [answer_of_walk_error h]
    simp [Menu.unknown]
  | ok n =>
    rw [answer_of_walk_ok h]
    simp [n.offer_blank_kind_ne_invalid]

theorem answer_snoc_kind_eq_invalid_iff {t : Tree} {n : Node} {words : List String} {word : String}
    (hs : Stand.stepThrough ⟨t.root, false⟩ words = .ok ⟨n, false⟩)
    (hf : looksLikeFlag word = false) :
    (t.answer (words ++ [word]) "").kind = .invalid ↔ n.findChild word = none := by
  rw [answer_blank_kind_eq_invalid_iff, Node.walk_eq_stepThrough, Stand.stepThrough_snoc hs]
  cases hc : n.findChild word with
  | none => rw [Stand.step_unknown hf hc]; simp [Except.map]
  | some c => rw [Stand.step_child hf hc]; simp [Except.map]

/-- **A fragment is refused exactly when no way of finishing it could be accepted**, hidden commands
and aliases included. -/
theorem complete_invalid_iff_every_extension (t : Tree) (words : List String) (fragment : String)
    (hwords : ∀ word ∈ words, word ≠ "")
    (hlast : ∀ word, words.getLast? = some word → looksLikeFlag word = false)
    (hne : fragment ≠ "") (hflag : looksLikeFlag fragment = false) :
    (t.complete { tokens := t.program :: words ++ [fragment], fragment }).kind = .invalid ↔
      ∀ rest, (t.complete { tokens := t.program :: words ++ [fragment ++ rest],
                            fragment := "" }).kind = .invalid := by
  have hcommitted : ∀ rest, t.complete
      { tokens := t.program :: words ++ [fragment ++ rest], fragment := "" } =
        t.answer (words ++ [fragment ++ rest]) "" := by
    intro rest
    have hlong : fragment ++ rest ≠ "" := by simp [hne]
    rw [List.cons_append]
    refine t.complete_committed ?_
    intro word hm
    rcases List.mem_append.mp hm with hm | hm
    · exact hwords word hm
    · rw [List.mem_singleton.mp hm]
      exact hlong
  simp only [t.complete_typed hwords, hcommitted]
  cases hs : Stand.stepThrough ⟨t.root, false⟩ words with
  | error e =>
    -- the words fail already, whatever is typed after them
    refine iff_of_true ?_ ?_
    · rw [answer_of_walk_error (Node.walk_of_stepThrough_error hs)]; rfl
    · intro rest
      rw [answer_of_walk_error
        (Node.walk_of_stepThrough_error (Stand.stepThrough_append_error hs _))]
      rfl
  | ok s =>
    obtain ⟨n, awaiting⟩ := s
    obtain rfl : awaiting = false := Stand.awaiting_eq_false hs hlast
    rw [answer_of_walk_ok (Node.walk_of_stepThrough hs), Node.offer_kind_eq_invalid_iff]
    -- every longer word is refused for want of a child of that name
    have hlonger : ∀ rest, (t.answer (words ++ [fragment ++ rest]) "").kind = .invalid ↔
        ∀ c ∈ n.children, fragment ++ rest ∉ c.names := by
      intro rest
      have hword : looksLikeFlag (fragment ++ rest) = false := by
        rw [looksLikeFlag_append hne, hflag]
      rw [answer_snoc_kind_eq_invalid_iff hs hword, Node.findChild_eq_none_iff]
    simp only [hlonger]
    constructor
    · intro h rest c hc
      exact h.2.2.2 c hc rest
    · intro hall
      refine ⟨Node.valueUnderCursor_eq_none hlast hflag, hflag, hne, ?_⟩
      intro c hc rest
      exact hall rest c hc

/-- Below `list`, called by its alias after a switch, nothing begins with `x`, so nothing that begins
with `x` is ever accepted. -/
theorem sample_refuses_every_extension :
    (sample.complete { tokens := ["dot", "--json", "ls", "x"], fragment := "x" }).kind = .invalid ∧
      ∀ rest, (sample.complete { tokens := ["dot", "--json", "ls", "x" ++ rest],
                                 fragment := "" }).kind = .invalid := by
  have hx : (sample.complete
      { tokens := ["dot", "--json", "ls", "x"], fragment := "x" }).kind = .invalid := by
    decide +kernel
  refine ⟨hx, ?_⟩
  exact (sample.complete_invalid_iff_every_extension ["--json", "ls"] "x" (by decide)
    (by decide +kernel) (by decide) (by decide)).mp hx

end Tree

end Toolbox
