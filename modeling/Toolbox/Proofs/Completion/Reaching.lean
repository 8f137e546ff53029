import Toolbox.Proofs.Completion.Answer

/-!
# Every name leads to its child

The check of a tree lets through what the walk can tell apart: a word that calls a child calls no
other (`Node.findChild_eq_some_iff`), so from any command that was reached each of its children is
reached by each of its names. `Tree.complete_reaches_child` says so for whole requests, with the
program's name in front and the walk started at the root.

Two sorts of names never come as far as the look-up. A word that begins with a dash is read as a
flag, and an empty word is no word of a line at all. The check allows both, the second as an alias
only, and `Tree.outOfReach_not_reached` is a tree with one of each.
-/

namespace Toolbox

namespace Tree

/-- The committed words of the line lead to the command. -/
def CompletesAt (t : Tree) (line : Line) (n : Node) : Prop :=
  t.root.walk (line.committed t.program) = .ok n

/-- **From a command that is reached every child is reached**, by its name and by its aliases, and
completion goes on among the children of that child. -/
theorem complete_reaches_child (t : Tree) {words : List String} {n c : Node} {word : String}
    (hwords : ∀ word ∈ words, word ≠ "")
    (hread : Stand.stepThrough ⟨t.root, false⟩ words = .ok ⟨n, false⟩)
    (hc : c ∈ n.children) (hname : word ∈ c.names) (hne : word ≠ "")
    (hf : looksLikeFlag word = false) :
    t.CompletesAt { tokens := t.program :: words ++ [word], fragment := "" } c ∧
      t.complete { tokens := t.program :: words ++ [word], fragment := "" } =
        .found .subcommand (c.childItems "") := by
  have hall : ∀ w ∈ words ++ [word], w ≠ "" :=
    List.forall_mem_append.mpr ⟨hwords, List.forall_mem_singleton.mpr hne⟩
  have hcheck : n.check = .ok () := (Stand.holds_of_stepThrough hread).check t.faultless
  -- the look-up takes the first child of that name, and acceptance leaves no second one
  have hfind : n.findChild word = some c := (Node.findChild_eq_some_iff hcheck).mpr ⟨hc, hname⟩
  have hwalk : t.root.walk (words ++ [word]) = .ok c := by
    apply Node.walk_of_stepThrough (s := ⟨c, false⟩)
    rw [Stand.stepThrough_snoc hread, Stand.step_child hf hfind]
  have hlast : ∀ w, (words ++ [word]).getLast? = some w → looksLikeFlag w = false := by
    intro w hw
    rw [List.getLast?_concat] at hw
    obtain rfl := Option.some.inj hw
    exact hf
  rw [List.cons_append]
  constructor
  · rw [CompletesAt, Line.committed_blank t.program hall]
    exact hwalk
  · have hblank : looksLikeFlag "" = false := rfl
    rw [t.complete_committed hall, answer_of_walk_ok hwalk]
    exact Node.offer_of_name (Node.valueUnderCursor_eq_none hlast hblank) hblank (.inl rfl)

/-- Behind a flag of the root, `ls` leads to the command `list`. -/
theorem sample_complete_reaches_child :
    ∃ c ∈ sample.root.children, "ls" ∈ c.names ∧
      sample.CompletesAt { tokens := ["dot", "--json", "ls"], fragment := "" } c ∧
      sample.complete { tokens := ["dot", "--json", "ls"], fragment := "" } =
        .found .subcommand [{ insert := "templates" }, { insert := "tutorials" }] := by
  have hname : "ls" ∈ sample.root.children[0].names := .tail _ (.head _)
  have hwords : ∀ word ∈ ["--json"], word ≠ "" := by simp
  obtain ⟨hwalk, hmenu⟩ := @complete_reaches_child sample ["--json"] sample.root
    sample.root.children[0] "ls" hwords rfl (.head _) hname (by decide) rfl
  exact ⟨_, .head _, hname, hwalk, hmenu.trans rfl⟩

/-- A tree that is accepted with a name that is read as a flag and an alias that is no word. -/
def outOfReach : Tree where
  root :=
    { name := "dot"
      children := [
        { name := "-v", children := [{ name := "audit" }] },
        { name := "list", aliases := [""], children := [{ name := "templates" }] }] }
  faultless := rfl

/-- Neither of the two leads away from the root. -/
theorem outOfReach_not_reached :
    ∃ c d, Stand.stepThrough ⟨outOfReach.root, false⟩ [] = .ok ⟨outOfReach.root, false⟩ ∧
      c ∈ outOfReach.root.children ∧ "-v" ∈ c.names ∧
      ¬ outOfReach.CompletesAt { tokens := ["dot", "-v"], fragment := "" } c ∧
      d ∈ outOfReach.root.children ∧ "" ∈ d.names ∧
      ¬ outOfReach.CompletesAt { tokens := ["dot", ""], fragment := "" } d := by
  refine ⟨_, _, rfl, .head _, .head _, ?_, .tail _ (.head _), .tail _ (.head _), ?_⟩
  · intro h
    exact absurd (congrArg Node.name (Except.ok.inj h)) (by decide)
  · intro h
    exact absurd (congrArg Node.name (Except.ok.inj h)) (by decide)

end Tree

end Toolbox
