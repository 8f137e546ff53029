import Toolbox.Proofs.Completion.Grammar
import Toolbox.Proofs.Completion.Shapes

/-!
# Words that call nothing

A walk fails in one way only: in command position it comes to a word that no child goes by. Which
position that is depends on all the words before, since each flag among them may have taken the next
word for its value. `Node.Reads` says of a front of the line that it is read with no flag left
without its value, and `Node.StopsAt` says it of a front and the word behind it.

> a line can be stopped at one word only, and no word behind that one is read any more.

The first half is `StopsAt.unique`: of two fronts of one line the shorter one, with its word, would
be a front of the longer one, which was read. The second half is that a failed walk stays failed
(`Stand.stepThrough_append_error`), so that neither the words behind nor the fragment change what is
reported. `Node.walk_eq_error_iff_stopsAt` puts the two together.

A root need not be accepted for any of this, so `Reads` takes the first child that goes by a word.
Over an accepted tree there is one at most, and what `Reads` reads are the readings of the grammar
without a pending segment (`Node.reads_iff_reading`).
-/

namespace Toolbox

open Text

namespace Node

/-! ## Reading a front of the line -/

/-- The first child that goes by this word. -/
def FirstChild (n : Node) (word : String) (c : Node) : Prop :=
  ∃ before after, n.children = before ++ c :: after ∧ (word = c.name ∨ word ∈ c.aliases) ∧
    ∀ d ∈ before, word ≠ d.name ∧ word ∉ d.aliases

/-- The words lead from one command to another, each read at the command reached so far, and no flag
is left without its value. -/
inductive Reads : Node → List String → Node → Prop where
  | done {n : Node} : Reads n [] n
  /-- A name or an alias of a child moves to the first child that has it. -/
  | call {n c m : Node} {word : String} {rest : List String} :
      startsWith word "-" = false → n.FirstChild word c → Reads c rest m → Reads n (word :: rest) m
  /-- A flag that no value follows stays. -/
  | flag {n m : Node} {word : String} {rest : List String} :
      startsWith word "-" = true → n.TakesNoValue word → Reads n rest m → Reads n (word :: rest) m
  /-- A flag stays, and so does the word after it, whatever that is. -/
  | valued {n m : Node} {word value : String} {rest : List String} :
      startsWith word "-" = true → n.TakesValue word → Reads n rest m →
      Reads n (word :: value :: rest) m

theorem findChild_eq_some_iff_firstChild {n c : Node} {word : String} :
    n.findChild word = some c ↔ n.FirstChild word c := by
  simp only [findChild, FirstChild, List.find?_eq_some_iff_append, List.contains_iff_mem,
    Bool.not_eq_true', ← Bool.not_eq_true, mem_names_iff, not_or]
  constructor
  · rintro ⟨hw, before, after, hchildren, hbefore⟩
    exact ⟨before, after, hchildren, hw, hbefore⟩
  · rintro ⟨before, after, hchildren, hw, hbefore⟩
    exact ⟨hw, before, after, hchildren, hbefore⟩

theorem Reads.stepThrough {n m : Node} {words : List String} (h : n.Reads words m) :
    Stand.stepThrough ⟨n, false⟩ words = .ok ⟨m, false⟩ := by
  induction h with
  | done => rfl
  | call hf hc _ ih =>
    rw [Stand.stepThrough, Stand.step_child hf (findChild_eq_some_iff_firstChild.mpr hc)]
    exact ih
  | flag hf hv _ ih =>
    rw [Stand.stepThrough, Stand.step_flag hf, awaitsValue_eq_false_iff.mpr hv]
    exact ih
  | valued hf hv _ ih =>
    rw [Stand.stepThrough, Stand.step_flag hf, awaitsValue_eq_true_iff.mpr hv]
    exact ih

/-- **What the machine has read when nothing is awaited.** The second half is what carries the
induction past a flag with a value: the machine has taken the value before it goes on. -/
theorem Reads.of_stepThrough {m : Node} {words : List String} (n : Node) :
    (Stand.stepThrough ⟨n, false⟩ words = .ok ⟨m, false⟩ → n.Reads words m) ∧
    (Stand.stepThrough ⟨n, true⟩ words = .ok ⟨m, false⟩ →
      ∃ value rest, words = value :: rest ∧ n.Reads rest m) := by
  induction words generalizing n with
  | nil =>
    constructor
    · intro h
      cases h
      exact .done
    · intro h
      cases h
  | cons word rest ih =>
    constructor
    · intro h
      rw [Stand.stepThrough] at h
      cases hf : looksLikeFlag word with
      | true =>
        rw [Stand.step_flag hf] at h
        cases hv : n.awaitsValue word with
        | true =>
          rw [hv] at h
          obtain ⟨value, rest, rfl, hr⟩ := (ih n).2 h
          exact .valued hf (awaitsValue_eq_true_iff.mp hv) hr
        | false =>
          rw [hv] at h
          exact .flag hf (awaitsValue_eq_false_iff.mp hv) ((ih n).1 h)
      | false =>
        cases hc : n.findChild word with
        | none =>
          rw [Stand.step_unknown hf hc] at h
          cases h
        | some c =>
          rw [Stand.step_child hf hc] at h
          exact .call hf (findChild_eq_some_iff_firstChild.mp hc) ((ih c).1 h)
    · intro h
      exact ⟨word, rest, rfl, (ih n).1 h⟩

theorem reads_iff {n m : Node} {words : List String} :
    n.Reads words m ↔ Stand.stepThrough ⟨n, false⟩ words = .ok ⟨m, false⟩ :=
  ⟨Reads.stepThrough, (Reads.of_stepThrough n).1⟩

/-- Under an accepted command, what is read is what can be cut into segments none of which is
pending. -/
theorem reads_iff_reading {n m : Node} {words : List String} (hn : n.check = .ok ()) :
    n.Reads words m ↔ ∃ segments, words = segments.flatMap Segment.words ∧
      Segment.Reading n segments m ∧ ∀ word, Segment.pending word ∉ segments := by
  constructor
  · intro h
    induction h with
    | done => exact ⟨[], rfl, .done, by simp⟩
    | @call n c m word rest hf hc _ ih =>
      obtain ⟨before, after, hchildren, hw, -⟩ := hc
      have hmem : c ∈ n.children := by
        rw [hchildren]
        exact List.mem_append_right _ List.mem_cons_self
      obtain ⟨segments, rfl, hr, hpending⟩ := ih ((check_eq_ok_iff.mp hn).2.1 c hmem).2
      exact ⟨.call c word :: segments, rfl, .call hf hmem hw hr, by simpa using hpending⟩
    | @flag n m word rest hf hv _ ih =>
      obtain ⟨segments, rfl, hr, hpending⟩ := ih hn
      exact ⟨.flag word :: segments, rfl, .flag hf hv hr, by simpa using hpending⟩
    | @valued n m word value rest hf hv _ ih =>
      obtain ⟨segments, rfl, hr, hpending⟩ := ih hn
      exact ⟨.valued word value :: segments, rfl, .valued hf hv hr, by simpa using hpending⟩
  · rintro ⟨segments, rfl, hr, hpending⟩
    induction hr with
    | done => exact .done
    | call hf hc hw _ ih =>
      have hfirst := (findChild_eq_some_iff hn).mpr ⟨hc, mem_names_iff.mpr hw⟩
      refine .call hf (findChild_eq_some_iff_firstChild.mp hfirst) ?_
      exact ih ((check_eq_ok_iff.mp hn).2.1 _ hc).2 fun word hm =>
        hpending word (List.mem_cons_of_mem _ hm)
    | flag hf hv _ ih =>
      exact .flag hf hv (ih hn fun word hm => hpending word (List.mem_cons_of_mem _ hm))
    | valued hf hv _ ih =>
      exact .valued hf hv (ih hn fun word hm => hpending word (List.mem_cons_of_mem _ hm))
    | pending => exact absurd List.mem_cons_self (hpending _)

/-! ## Where a line is stopped -/

/-- The words `front` lead from `n` to `m`, where no value is awaited, and `word`, which is no flag,
calls no child of `m`. -/
structure StopsAt (n : Node) (front : List String) (word : String) (m : Node) : Prop where
  reads : n.Reads front m
  plain : startsWith word "-" = false
  uncalled : ∀ c ∈ m.children, word ≠ c.name ∧ word ∉ c.aliases

namespace StopsAt

variable {n m m' : Node} {front front' words : List String} {word word' : String}

theorem stepThrough_snoc (h : n.StopsAt front word m) :
    Stand.stepThrough ⟨n, false⟩ (front ++ [word]) = .error ⟨word, m.name⟩ := by
  rw [Stand.stepThrough_snoc h.reads.stepThrough]
  refine Stand.step_unknown h.plain (findChild_eq_none_iff.mpr ?_)
  intro c hc hname
  exact (mem_names_iff.mp hname).elim (h.uncalled c hc).1 (h.uncalled c hc).2

theorem walk_of_prefix (h : n.StopsAt front word m) (hpre : front ++ [word] <+: words) :
    n.walk words = .error ⟨word, m.name⟩ := by
  obtain ⟨back, rfl⟩ := hpre
  exact walk_of_stepThrough_error (Stand.stepThrough_append_error h.stepThrough_snoc back)

/-- Nothing behind the word is read. -/
theorem not_prefix (h : n.StopsAt front word m) (h' : n.StopsAt front' word' m') :
    ¬ front ++ [word] <+: front' := by
  rintro ⟨back, hback⟩
  have hread := h'.reads.stepThrough
  rw [← hback, Stand.stepThrough_append_error h.stepThrough_snoc] at hread
  cases hread

theorem eq_of_prefix (h : n.StopsAt front word m) (h' : n.StopsAt front' word' m')
    (hpre : front ++ [word] <+: front' ++ [word']) : front = front' ∧ word = word' ∧ m = m' := by
  rcases List.prefix_concat_iff.mp hpre with heq | hpre
  · obtain ⟨rfl, hword⟩ := List.append_inj' heq rfl
    obtain rfl := List.singleton_inj.mp hword
    have hm := h.reads.stepThrough.symm.trans h'.reads.stepThrough
    cases hm
    exact ⟨rfl, rfl, rfl⟩
  · exact absurd hpre (h.not_prefix h')

/-- **A line is stopped at one word only.** -/
theorem unique (h : n.StopsAt front word m) (h' : n.StopsAt front' word' m')
    (hpre : front ++ [word] <+: words) (hpre' : front' ++ [word'] <+: words) :
    front' = front ∧ word' = word ∧ m' = m := by
  rcases List.prefix_or_prefix_of_prefix hpre hpre' with hfirst | hsecond
  · obtain ⟨rfl, rfl, rfl⟩ := h.eq_of_prefix h' hfirst
    exact ⟨rfl, rfl, rfl⟩
  · exact h'.eq_of_prefix h hsecond

/-- Whatever stands behind the word, and whatever is being typed, the menu reports the word. -/
theorem complete_eq {t : Tree} (h : t.root.StopsAt front word m) {line : Line}
    (hpre : front ++ [word] <+: line.committed t.program) :
    t.complete line = .unknown word m.name := by
  rw [Tree.complete_eq_answer, Tree.answer_of_walk_error (h.walk_of_prefix hpre)]

end StopsAt

theorem exists_walk_eq_error_iff {n : Node} {words : List String} :
    (∃ e, n.walk words = .error e) ↔
      ∃ front word m, front ++ [word] <+: words ∧ n.StopsAt front word m := by
  constructor
  · intro h
    obtain ⟨e, he⟩ := h
    cases hread : Stand.stepThrough ⟨n, false⟩ words with
    | ok s => rw [walk_of_stepThrough hread] at he; cases he
    | error e' =>
      obtain ⟨front, word, ⟨m, awaiting⟩, hpre, hfront, hword⟩ :=
        Stand.stepThrough_eq_error_iff.mp hread
      obtain ⟨rfl, hplain, hnone, -⟩ := Stand.step_eq_error_iff.mp hword
      refine ⟨front, word, m, hpre, reads_iff.mpr hfront, hplain, ?_⟩
      intro c hc
      rw [← not_or, ← mem_names_iff]
      exact findChild_eq_none_iff.mp hnone c hc
  · intro h
    obtain ⟨front, word, m, hpre, hstop⟩ := h
    exact ⟨_, hstop.walk_of_prefix hpre⟩

/-- **An unknown word is reported exactly, once and for good.** A walk fails exactly when it is
stopped at a word; that word, the words before it and the command it was tried at are determined by
the line; and every request whose committed words begin like that is answered by the one menu that
names the word and the primary name of the command. Over an accepted tree the words before it are
those that can be cut into segments with no flag left without its value. -/
theorem walk_eq_error_iff_stopsAt (root : Node) (words : List String) :
    ((∃ e, root.walk words = .error e) ↔
      ∃ front word m, front ++ [word] <+: words ∧ root.StopsAt front word m) ∧
    (∀ front word m, front ++ [word] <+: words → root.StopsAt front word m →
      (∀ front' word' m', front' ++ [word'] <+: words → root.StopsAt front' word' m' →
        front' = front ∧ word' = word ∧ m' = m) ∧
      root.walk words = .error ⟨word, m.name⟩ ∧
      ∀ (t : Tree) (line : Line) (committed : List String), t.root = root →
        line.Commits t.program committed → front ++ [word] <+: committed →
        t.complete line =
          { kind := .invalid
            items := []
            note := some ("'" ++ word ++ "' is not a subcommand of '" ++ m.name ++ "'.")
            severity := some .error }) ∧
    ∀ t : Tree, t.root = root → ∀ front m, root.Reads front m ↔
      ∃ segments, front = segments.flatMap Segment.words ∧ Segment.Reading root segments m ∧
        ∀ word, Segment.pending word ∉ segments := by
  refine ⟨exists_walk_eq_error_iff, ?_, ?_⟩
  · intro front word m hpre hstop
    refine ⟨?_, hstop.walk_of_prefix hpre, ?_⟩
    · intro front' word' m' hpre' hstop'
      exact hstop.unique hstop' hpre hpre'
    · rintro t line _ rfl hcommits hline
      rw [← Line.commits_iff.mp hcommits] at hline
      exact hstop.complete_eq hline
  · rintro t rfl front m
    exact reads_iff_reading t.faultless

/-- The command is named by its primary name, not as it was called, and neither the flag behind the
word nor the fragment counts. -/
example :
    Tree.sample.complete { tokens := ["dot", "--json", "ls", "x", "--network"], fragment := "t" } =
      .unknown "x" "list" := by
  decide +kernel

end Node

end Toolbox
