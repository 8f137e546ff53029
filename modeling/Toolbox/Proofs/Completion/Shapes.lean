import Mathlib.Logic.Relation
import Toolbox.Proofs.Completion.Answer

/-!
# Shapes of one request

Shells differ in how they report a command line: some repeat the word under the cursor at the end
of the tokens, some send empty tokens, some leave the name of the program out. `Line.Reshaped` lists
these differences one at a time, each under the condition that makes it a mere difference of shape,
and the relation of two lists that differ in any number of them is its equivalence closure.

> two lists of tokens are shapes of one request exactly when they commit the same words.

`Line.reshaped_iff_committed_eq` is that fact, and the left-to-right half of it is what makes their
menus equal. The difficulty of that half is in the order in which `Line.committed` works: it takes
away the program's name *before* it looks for the echo, so an echo that is the only token may be
taken for the program's name. Then there is nothing left for the echo to be taken from, and the
words are the same all the same (`Line.committed_echo`).

The other half says that the list is complete: every list of tokens comes down to the program's
name, the committed words and the fragment (`Line.reshaped_typed`).

Which words a list of tokens commits is said without an order of steps by `Line.Commits`, and
`Line.commits_iff` is the agreement with `Line.committed`.
-/

namespace Toolbox

namespace Line

/-- A difference between two lists of tokens that a shell may send for one command line, the second
of which has less in it. -/
inductive Reshaped (program fragment : String) : List String → List String → Prop where
  /-- An empty token may stand anywhere. -/
  | blank (front back : List String) :
      Reshaped program fragment (front ++ "" :: back) (front ++ back)
  /-- The name of the program may stand in front where the words do not begin with it. -/
  | program {tokens : List String} : (tokens.filter (· ≠ "")).head? ≠ some program →
      Reshaped program fragment (program :: tokens) tokens
  /-- The fragment may stand at the end where the words behind the program's name do not end with
  it. -/
  | echo {tokens : List String} : fragment ≠ "" →
      (dropProgram program (tokens.filter (· ≠ ""))).getLast? ≠ some fragment →
      Reshaped program fragment (tokens ++ [fragment]) tokens

/-! ## Each difference leaves the committed words alone -/

variable {program fragment : String}

theorem dropProgram_of_head_ne {words : List String} (h : words.head? ≠ some program) :
    dropProgram program words = words := by
  cases words with
  | nil => rfl
  | cons word rest =>
    rw [dropProgram, if_neg]
    intro he
    exact h (by rw [he]; rfl)

theorem mem_of_mem_dropProgram {words : List String} {word : String}
    (h : word ∈ dropProgram program words) : word ∈ words := by
  cases words with
  | nil => exact h
  | cons first rest =>
    rw [dropProgram] at h
    split at h
    · exact List.mem_cons_of_mem _ h
    · exact h

theorem committed_blank_token (front back : List String) :
    committed program { tokens := front ++ "" :: back, fragment } =
      committed program { tokens := front ++ back, fragment } := by
  simp [committed]

theorem committed_program {tokens : List String}
    (h : (tokens.filter (· ≠ "")).head? ≠ some program) :
    committed program { tokens := program :: tokens, fragment } =
      committed program { tokens, fragment } := by
  rw [committed, committed, dropProgram_cons, dropProgram_of_head_ne h]

theorem committed_echo {tokens : List String} (hf : fragment ≠ "")
    (h : (dropProgram program (tokens.filter (· ≠ ""))).getLast? ≠ some fragment) :
    committed program { tokens := tokens ++ [fragment], fragment } =
      committed program { tokens, fragment } := by
  have hkept : [fragment].filter (· ≠ "") = [fragment] := by simp [hf]
  rw [committed, committed, List.filter_append, hkept, dropEcho_of_last_ne h]
  cases tokens.filter (· ≠ "") with
  | nil =>
    -- the echo is the only word: either it passes for the program's name, or it is dropped as echo
    by_cases hp : fragment = program
    · simp [dropProgram, hp, dropEcho]
    · simp [dropProgram, hp, dropEcho, hf]
  | cons word rest =>
    have hrest : dropProgram program (word :: rest ++ [fragment]) =
        dropProgram program (word :: rest) ++ [fragment] := by
      by_cases hp : word = program <;> simp [dropProgram, hp]
    rw [hrest, dropEcho_snoc hf]

theorem Reshaped.committed_eq {tokens others : List String}
    (h : Reshaped program fragment tokens others) :
    committed program { tokens, fragment } = committed program { tokens := others, fragment } := by
  cases h with
  | blank front back => exact committed_blank_token front back
  | program h => exact committed_program h
  | echo hf h => exact committed_echo hf h

/-- However many differences there are, the committed words are the same. -/
theorem committed_eq_of_reshaped {tokens others : List String}
    (h : Relation.EqvGen (Reshaped program fragment) tokens others) :
    committed program { tokens, fragment } = committed program { tokens := others, fragment } := by
  induction h with
  | rel _ _ h => exact h.committed_eq
  | refl => rfl
  | symm _ _ _ ih => exact ih.symm
  | trans _ _ _ _ _ ih₁ ih₂ => exact ih₁.trans ih₂

/-! ## What is committed -/

/-- The words of a line that lead somewhere: the tokens that are not empty, without the name of the
program if they begin with it, and then without the fragment if they end with it. An empty fragment
is no echo. -/
def Commits (program : String) (line : Line) (words : List String) : Prop :=
  ∃ front echo, line.tokens.filter (· ≠ "") = front ++ words ++ echo ∧
    (front = [program] ∨ (front = [] ∧ (words ++ echo).head? ≠ some program)) ∧
    ((echo = [line.fragment] ∧ line.fragment ≠ "") ∨
      (echo = [] ∧ (line.fragment = "" ∨ words.getLast? ≠ some line.fragment)))

section

variable {line : Line} {words tokens : List String}

theorem dropProgram_eq_iff :
    dropProgram program tokens = words ↔ ∃ front, tokens = front ++ words ∧
      (front = [program] ∨ (front = [] ∧ words.head? ≠ some program)) := by
  constructor
  · rintro rfl
    cases tokens with
    | nil => exact ⟨[], rfl, .inr ⟨rfl, by simp [dropProgram]⟩⟩
    | cons token rest =>
      rw [dropProgram]
      split
      · next hp => exact ⟨[program], by rw [hp]; rfl, .inl rfl⟩
      · next hp => exact ⟨[], rfl, .inr ⟨rfl, by simpa using hp⟩⟩
  · rintro ⟨front, rfl, rfl | ⟨rfl, hhead⟩⟩
    · simp [dropProgram]
    · rw [List.nil_append, dropProgram_of_head_ne hhead]

theorem dropEcho_eq_iff :
    dropEcho fragment tokens = words ↔ ∃ echo, tokens = words ++ echo ∧
      ((echo = [fragment] ∧ fragment ≠ "") ∨
        (echo = [] ∧ (fragment = "" ∨ words.getLast? ≠ some fragment))) := by
  constructor
  · rintro rfl
    by_cases hf : fragment = ""
    · subst hf
      exact ⟨[], by rw [dropEcho_empty, List.append_nil], .inr ⟨rfl, .inl rfl⟩⟩
    by_cases hlast : tokens.getLast? = some fragment
    · obtain ⟨front, rfl⟩ := List.getLast?_eq_some_iff.mp hlast
      exact ⟨[fragment], by rw [dropEcho_snoc hf], .inl ⟨rfl, hf⟩⟩
    · rw [dropEcho_of_last_ne hlast]
      exact ⟨[], (List.append_nil _).symm, .inr ⟨rfl, .inr hlast⟩⟩
  · rintro ⟨echo, rfl, ⟨rfl, hf⟩ | ⟨rfl, rfl | hlast⟩⟩
    · exact dropEcho_snoc hf words
    · rw [dropEcho_empty, List.append_nil]
    · rw [List.append_nil, dropEcho_of_last_ne hlast]

theorem commits_iff : line.Commits program words ↔ line.committed program = words := by
  rw [committed, dropEcho_eq_iff, Commits]
  simp only [dropProgram_eq_iff]
  constructor
  · rintro ⟨front, echo, htokens, hfront, hecho⟩
    exact ⟨echo, ⟨front, by rw [htokens, List.append_assoc], hfront⟩, hecho⟩
  · rintro ⟨echo, ⟨front, htokens, hfront⟩, hecho⟩
    exact ⟨front, echo, by rw [htokens, List.append_assoc], hfront, hecho⟩

end

/-! ## There are no other differences -/

theorem reshaped_filter (front tokens : List String) :
    Relation.EqvGen (Reshaped program fragment) (front ++ tokens)
      (front ++ tokens.filter (· ≠ "")) := by
  induction tokens generalizing front with
  | nil => exact .refl _
  | cons token rest ih =>
    by_cases ht : token = ""
    · subst ht
      rw [List.filter_cons_of_neg (by simp)]
      exact .trans _ _ _ (.rel _ _ (.blank front rest)) (ih front)
    · have hfront := ih (front ++ [token])
      rw [List.append_assoc, List.append_assoc] at hfront
      rw [List.filter_cons_of_pos (by simpa using ht)]
      exact hfront

theorem reshaped_dropProgram {words : List String} (hw : ∀ word ∈ words, word ≠ "") :
    Relation.EqvGen (Reshaped program fragment) words (program :: dropProgram program words) := by
  cases words with
  | nil =>
    have hlone : Reshaped program fragment [program] [] := .program (by simp)
    exact .symm _ _ (.rel _ _ hlone)
  | cons word rest =>
    by_cases hp : word = program
    · rw [dropProgram, if_pos hp, hp]
      exact .refl _
    · rw [dropProgram, if_neg hp]
      refine .symm _ _ (.rel _ _ (.program ?_))
      rw [filter_ne_empty hw]
      simpa using hp

theorem reshaped_dropEcho {words : List String} (hw : ∀ word ∈ words, word ≠ "") :
    Relation.EqvGen (Reshaped program fragment) (program :: words)
      (program :: dropEcho fragment words ++ [fragment]) := by
  by_cases hf : fragment = ""
  · subst hf
    rw [dropEcho_empty]
    have hblank : Reshaped program "" ((program :: words) ++ [""]) ((program :: words) ++ []) :=
      .blank (program :: words) []
    rw [List.append_nil] at hblank
    exact .symm _ _ (.rel _ _ hblank)
  by_cases hlast : words.getLast? = some fragment
  · obtain ⟨front, rfl⟩ := List.getLast?_eq_some_iff.mp hlast
    rw [dropEcho_snoc hf]
    exact .refl _
  · rw [dropEcho_of_last_ne hlast]
    refine .symm _ _ (.rel _ _ (.echo hf ?_))
    rw [dropProgram_cons, filter_ne_empty hw]
    exact hlast

/-- Every list of tokens is a shape of the program's name, the committed words and the fragment. -/
theorem reshaped_typed (tokens : List String) :
    Relation.EqvGen (Reshaped program fragment) tokens
      (program :: committed program { tokens, fragment } ++ [fragment]) := by
  have hkept : ∀ word ∈ tokens.filter (· ≠ ""), word ≠ "" := by simp
  have hbehind : ∀ word ∈ dropProgram program (tokens.filter (· ≠ "")), word ≠ "" := by
    intro word hm
    exact hkept word (mem_of_mem_dropProgram hm)
  exact .trans _ _ _ (reshaped_filter [] tokens)
    (.trans _ _ _ (reshaped_dropProgram hkept) (reshaped_dropEcho hbehind))

/-- **Two lists of tokens are shapes of one request exactly when they commit the same words.** -/
theorem reshaped_iff_committed_eq {tokens others : List String} :
    Relation.EqvGen (Reshaped program fragment) tokens others ↔
      committed program { tokens, fragment } =
        committed program { tokens := others, fragment } := by
  refine ⟨committed_eq_of_reshaped, ?_⟩
  intro h
  have hothers : Relation.EqvGen (Reshaped program fragment) others
      (program :: committed program { tokens := others, fragment } ++ [fragment]) :=
    reshaped_typed others
  rw [← h] at hothers
  exact .trans _ _ _ (reshaped_typed tokens) (.symm _ _ hothers)

end Line

namespace Tree

/-- **All shapes of a request get the same menu.** -/
theorem complete_eq_of_reshaped (t : Tree) {fragment : String} {tokens others : List String}
    (h : Relation.EqvGen (Line.Reshaped t.program fragment) tokens others) :
    t.complete { tokens, fragment } = t.complete { tokens := others, fragment } := by
  rw [complete_eq_answer, complete_eq_answer, Line.committed_eq_of_reshaped h]

/-- The fragment `dot` is spelled like the program. Echoed behind nothing it passes for the
program's name, so that it can be echoed once more; the menu stays that of no tokens at all. -/
theorem sample_complete_eq_of_reshaped :
    Relation.EqvGen (Line.Reshaped sample.program "dot") ["dot", "", "dot"] [] ∧
      sample.complete { tokens := ["dot", "", "dot"], fragment := "dot" } =
        sample.complete { tokens := [], fragment := "dot" } := by
  have h₁ : Line.Reshaped sample.program "dot" ["dot"] [] :=
    @Line.Reshaped.echo _ _ [] (by decide) (by decide)
  have h₂ : Line.Reshaped sample.program "dot" ["dot", "dot"] ["dot"] :=
    @Line.Reshaped.echo _ _ ["dot"] (by decide) (by decide)
  have h₃ : Line.Reshaped sample.program "dot" ["dot", "", "dot"] ["dot", "dot"] :=
    .blank ["dot"] ["dot"]
  have h : Relation.EqvGen (Line.Reshaped sample.program "dot") ["dot", "", "dot"] [] :=
    .trans _ _ _ (.rel _ _ h₃) (.trans _ _ _ (.rel _ _ h₂) (.rel _ _ h₁))
  exact ⟨h, sample.complete_eq_of_reshaped h⟩

end Tree

end Toolbox
