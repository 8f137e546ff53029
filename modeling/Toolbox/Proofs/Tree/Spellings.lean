import Mathlib.Data.List.DropRight
import Toolbox.Completion.Offer
import Toolbox.Proofs.Tree.Faults
import Toolbox.Proofs.Tree.Flags

/-!
# Spellings as words

A spelling is offered by itself and typed back by itself, so it should be one word of a line. Two
places see to that: the steps that put a flag together write the dashes, and the check of a tree
looks at what stands behind them.

The check does so twice, once for each sort of spelling, and not with the same tests. A long
spelling must have something behind its dashes and neither `=` nor white space anywhere; a letter
must not be `-` or `=`. So a letter that is a blank passes, and it is all that passes:
`Tree.spelling_is_word` says that a spelling is one word but for that, and
`Tree.blankLetter_spelling_is_no_word` is an accepted tree that offers such a spelling.
-/

namespace Toolbox

open Text

theorem Text.dropDashes_dashes (name : String) : dropDashes ("--" ++ name) = dropDashes name := by
  have hdashes : "--".toList = ['-', '-'] := by decide
  simp [dropDashes, hdashes]

theorem Text.dropDashes_dropDashes (name : String) :
    dropDashes (dropDashes name) = dropDashes name := by
  simp [dropDashes, List.dropWhile_idempotent]

theorem Text.dropDashes_letter {c : Char} (h : c ≠ '-') :
    dropDashes (String.ofList ['-', c]) = String.ofList [c] := by
  simp [dropDashes, h]

namespace Flag

variable {f : Flag} {command s : String}

/-- **What a spelling of an accepted flag is**: a dash and a letter, of which little is known, or two
dashes and a name without `=` and white space. -/
theorem spelling_cases (h : f.check command = .ok ()) (hmade : f.Dashed) (hs : s ∈ f.spellings) :
    (∃ c, s = String.ofList ['-', c] ∧ c ≠ '-' ∧ c ≠ '=') ∨
    (∃ name, s = "--" ++ dropDashes name ∧ dropDashes name ≠ "" ∧ holds '=' s = false ∧
      ∀ c ∈ s.toList, isBlank c = false) := by
  obtain ⟨-, hwords⟩ := check_eq_ok_iff.mp h
  rcases mem_spellings_iff.mp hs with hshort | hlong
  · obtain ⟨c, rfl⟩ := hmade.short s hshort
    obtain ⟨-, hdash, hequals⟩ := hwords.short _ hshort
    exact .inl ⟨c, rfl, by simpa using hdash, by simpa using hequals⟩
  · obtain ⟨name, rfl⟩ := hmade.long s hlong
    obtain ⟨hlength, hequals, hblank⟩ := hwords.long _ hlong
    refine .inr ⟨name, rfl, ?_, holds_eq_false_iff.mpr hequals, hblank⟩
    intro hempty
    rw [hempty] at hlength
    exact absurd hlength (by decide)

theorem dropDashes_ne_empty (h : f.check command = .ok ()) (hmade : f.Dashed)
    (hs : s ∈ f.spellings) : dropDashes s ≠ "" := by
  rcases spelling_cases h hmade hs with ⟨c, rfl, hc, -⟩ | ⟨name, rfl, hname, -⟩
  · rw [dropDashes_letter hc]
    simp
  · rw [dropDashes_dashes, dropDashes_dropDashes]
    exact hname

/-- White space is in a spelling only as the letter behind the dash. -/
theorem exists_blank_iff (h : f.check command = .ok ()) (hmade : f.Dashed)
    (hs : s ∈ f.spellings) :
    (∃ c ∈ s.toList, isBlank c = true) ↔ ∃ c, isBlank c = true ∧ s = String.ofList ['-', c] := by
  have hdash : isBlank '-' = false := by decide
  constructor
  · intro hblank
    obtain ⟨c, hc, hblank⟩ := hblank
    rcases spelling_cases h hmade hs with ⟨letter, rfl, -⟩ | ⟨name, -, -, -, hno⟩
    · rcases List.mem_pair.mp (String.toList_ofList ▸ hc) with rfl | rfl
      · rw [hdash] at hblank; cases hblank
      · exact ⟨c, hblank, rfl⟩
    · rw [hno c hc] at hblank; cases hblank
  · rintro ⟨c, hblank, rfl⟩
    exact ⟨c, by simp, hblank⟩

end Flag

namespace Tree

/-- **A spelling of an accepted tree is one word, but for a letter that is a blank.** It begins with
a dash, something stands behind its dashes, no `=` is in it, and the command finds a flag by it.
White space is in it exactly when it is a dash and one blank. -/
theorem spelling_is_word (t : Tree) (hmade : t.root.Assembled) {n : Node} {f : Flag} {s : String}
    (hn : t.root.Holds n) (hf : f ∈ n.flags) (hs : s ∈ f.spellings) :
    looksLikeFlag s = true ∧ dropDashes s ≠ "" ∧ holds '=' s = false ∧
      (∃ g, n.findFlag s = some g ∧ s ∈ g.spellings) ∧
      ((∃ c ∈ s.toList, isBlank c = true) ↔
        ∃ c, isBlank c = true ∧ s = String.ofList ['-', c]) := by
  obtain ⟨steps, rfl⟩ := hmade n hn f hf
  have hcheck := (Node.check_eq_ok_iff.mp (hn.check t.faultless)).1 _ hf
  have hdash := Flag.looksLikeFlag_of_mem_ofSteps hs
  have hfound : ∃ g, n.findFlag s = some g ∧ s ∈ g.spellings := by
    cases hfind : n.findFlag s with
    | none => exact absurd hs (Node.findFlag_eq_none_iff.mp hfind _ hf)
    | some g => exact ⟨g, rfl, (Node.findFlag_mem hfind).2⟩
  have hmade := Flag.dashed_ofSteps steps
  exact ⟨hdash, Flag.dropDashes_ne_empty hcheck hmade hs, Flag.holds_eq_of_check hcheck hs hdash,
    hfound, Flag.exists_blank_iff hcheck hmade hs⟩

/-- A tree that is accepted with a blank for a letter, beside a flag that is spelled in words. -/
def blankLetter : Tree where
  root :=
    { name := "dot"
      flags := [Flag.ofSteps [.long "---all", .short 'a'], Flag.ofSteps [.short ' ']] }
  faultless := rfl

theorem blankLetter_assembled : blankLetter.root.Assembled := by
  refine Node.assembled_iff.mpr ⟨?_, nofun⟩
  intro f hf
  rcases List.mem_pair.mp hf with rfl | rfl
  · exact ⟨_, rfl⟩
  · exact ⟨_, rfl⟩

/-- The long spelling of the first flag is a word, and is found again. -/
theorem blankLetter_all_is_word :
    blankLetter.root.Assembled ∧ blankLetter.root.Holds blankLetter.root ∧
      (∃ g, blankLetter.root.findFlag "--all" = some g ∧ "--all" ∈ g.spellings) ∧
      dropDashes "--all" ≠ "" ∧ ¬ ∃ c ∈ "--all".toList, isBlank c = true := by
  have hspelled : "--all" ∈ (Flag.ofSteps [.long "---all", .short 'a']).spellings := by decide
  obtain ⟨-, hbehind, -, hfound, hblank⟩ :=
    blankLetter.spelling_is_word blankLetter_assembled .self (.head _) hspelled
  refine ⟨blankLetter_assembled, .self, hfound, hbehind, ?_⟩
  rw [hblank]
  rintro ⟨c, -, hletter⟩
  have hall : "--all".toList = ['-', '-', 'a', 'l', 'l'] := by decide
  have hlist := congrArg String.toList hletter
  rw [hall, String.toList_ofList] at hlist
  cases hlist

/-- The letter of the second flag is a blank. Its spelling is offered, and no flag is found by what
is left of it on a line that is cut at blanks. -/
theorem blankLetter_spelling_is_no_word :
    blankLetter.root.Assembled ∧
      (∃ f ∈ blankLetter.root.flags, ∃ s ∈ f.spellings, ∃ c ∈ s.toList, isBlank c = true) ∧
      "- " ∈ (blankLetter.complete { tokens := ["dot"], fragment := "-" }).inserts ∧
      blankLetter.root.findFlag "-" = none := by
  refine ⟨blankLetter_assembled, ?_, ?_, ?_⟩
  · exact ⟨_, .tail _ (.head _), "- ", by decide, ' ', by decide, by decide⟩
  · decide +kernel
  · decide +kernel

end Tree

end Toolbox
