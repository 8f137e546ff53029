import Mathlib.Data.List.Forall2
import Toolbox.Proofs.Completion.Stand

/-!
# The grammar of committed words

What the words before the cursor may be, without saying how they are read. A line is cut into
segments, and a segment is a name of a child, a flag alone, a flag with its value, or, at the end
only, a flag whose value is still to come. Which of these a word may be is said in terms of what the
command at hand declares: `FirstFlag` is the first declaration that spells a word, and a child is
told by its name and its aliases.

`walk_eq_ok_iff_reading` is the result: over an accepted tree `Node.walk` accepts exactly the words
that can be cut, it ends where the segments lead, there is at most one way to cut, and a child may be
called by any of its names. `Walks` is the half-way house: it has the same rules, but its look-ups
are those of `Node.walk`.
-/

namespace Toolbox

open Text

namespace Node

/-- The first flag that a command declares under this spelling. -/
def FirstFlag (n : Node) (word : String) (f : Flag) : Prop :=
  ∃ before after, n.flags = before ++ f :: after ∧ word ∈ f.spellings ∧
    ∀ g ∈ before, word ∉ g.spellings

/-- A value follows this word: it holds no `=`, and the first flag spelled like it takes one. -/
def TakesValue (n : Node) (word : String) : Prop :=
  holds '=' word = false ∧ ∃ f, n.FirstFlag word f ∧ f.takesValue = true

/-- No value follows this word: it holds a `=`, or no flag is spelled like it, or the first that is
takes none. -/
def TakesNoValue (n : Node) (word : String) : Prop :=
  holds '=' word = true ∨ (∀ f ∈ n.flags, word ∉ f.spellings) ∨
    ∃ f, n.FirstFlag word f ∧ f.takesValue = false

theorem findFlag_eq_some_iff {n : Node} {word : String} {f : Flag} :
    n.findFlag word = some f ↔ n.FirstFlag word f := by
  simp only [findFlag, FirstFlag, List.find?_eq_some_iff_append, Flag.isSpelled,
    List.contains_iff_mem, Bool.not_eq_true', ← Bool.not_eq_true]
  constructor
  · intro h
    obtain ⟨hw, before, after, hflags, hbefore⟩ := h
    exact ⟨before, after, hflags, hw, hbefore⟩
  · intro h
    obtain ⟨before, after, hflags, hw, hbefore⟩ := h
    exact ⟨hw, before, after, hflags, hbefore⟩

theorem awaitsValue_eq_true_iff {n : Node} {word : String} :
    n.awaitsValue word = true ↔ n.TakesValue word := by
  simp only [awaitsValue, TakesValue, Bool.and_eq_true, Bool.not_eq_true', Option.any_eq_true,
    findFlag_eq_some_iff]

theorem awaitsValue_eq_false_iff {n : Node} {word : String} :
    n.awaitsValue word = false ↔ n.TakesNoValue word := by
  rw [awaitsValue, TakesNoValue, ← findFlag_eq_none_iff, Bool.and_eq_false_iff,
    Bool.not_eq_false']
  refine or_congr Iff.rfl ?_
  simp only [← findFlag_eq_some_iff]
  cases n.findFlag word <;> simp

end Node

/-- A piece of a command line. -/
inductive Segment where
  /-- A word that calls `child`. -/
  | call (child : Node) (word : String)
  /-- A flag that no value follows. -/
  | flag (word : String)
  /-- A flag and its value. -/
  | valued (word value : String)
  /-- A flag whose value is still to come. -/
  | pending (word : String)

namespace Segment

/-- The words of a segment. -/
def words : Segment → List String
  | call _ word => [word]
  | flag word => [word]
  | valued word value => [word, value]
  | pending word => [word]

/-- The segments lead from one command to another, each read at the command reached so far. -/
inductive Reading : Node → List Segment → Node → Prop where
  | done {n : Node} : Reading n [] n
  /-- A name or an alias of a child moves to that child. -/
  | call {n c m : Node} {word : String} {rest : List Segment} :
      startsWith word "-" = false → c ∈ n.children → word = c.name ∨ word ∈ c.aliases →
      Reading c rest m → Reading n (.call c word :: rest) m
  /-- A flag that no value follows stays. -/
  | flag {n m : Node} {word : String} {rest : List Segment} :
      startsWith word "-" = true → n.TakesNoValue word → Reading n rest m →
      Reading n (.flag word :: rest) m
  /-- A flag stays, and so does the word after it, whatever that is. -/
  | valued {n m : Node} {word value : String} {rest : List Segment} :
      startsWith word "-" = true → n.TakesValue word → Reading n rest m →
      Reading n (.valued word value :: rest) m
  /-- A flag whose value is still to come stays, as the last word. -/
  | pending {n : Node} {word : String} :
      startsWith word "-" = true → n.TakesValue word → Reading n [.pending word] n

/-- The second segment is the first, or calls the same child by a name that is no flag. -/
inductive Respelled : Segment → Segment → Prop where
  | same {s : Segment} : Respelled s s
  | name {c : Node} {word other : String} :
      other = c.name ∨ other ∈ c.aliases → startsWith other "-" = false →
      Respelled (.call c word) (.call c other)

/-! ## Readings and walks -/

theorem Reading.walks {n m : Node} {segments : List Segment} (h : Reading n segments m)
    (hn : n.check = .ok ()) : Walks n (segments.flatMap words) m := by
  induction h with
  | done => exact .done
  | call hf hc hw _ ih =>
    have hchild := ((Node.check_eq_ok_iff.mp hn).2.1 _ hc).2
    exact .child hf ((Node.findChild_eq_some_iff hn).mpr ⟨hc, Node.mem_names_iff.mpr hw⟩) (ih hchild)
  | flag hf hv _ ih => exact .flag hf (Node.awaitsValue_eq_false_iff.mpr hv) (ih hn)
  | valued hf hv _ ih => exact .valued hf (Node.awaitsValue_eq_true_iff.mpr hv) (ih hn)
  | pending hf hv => exact .pending hf (Node.awaitsValue_eq_true_iff.mpr hv)

theorem Reading.of_walks {n m : Node} {line : List String} (h : Walks n line m) :
    ∃ segments, line = segments.flatMap words ∧ Reading n segments m := by
  induction h with
  | done => exact ⟨[], rfl, .done⟩
  | @child n c m word rest hf hfind _ ih =>
    obtain ⟨segments, rfl, hr⟩ := ih
    obtain ⟨hc, hw⟩ := Node.findChild_mem hfind
    exact ⟨.call c word :: segments, rfl, .call hf hc (Node.mem_names_iff.mp hw) hr⟩
  | @flag n m word rest hf hv _ ih =>
    obtain ⟨segments, rfl, hr⟩ := ih
    exact ⟨.flag word :: segments, rfl, .flag hf (Node.awaitsValue_eq_false_iff.mp hv) hr⟩
  | @valued n m word value rest hf hv _ ih =>
    obtain ⟨segments, rfl, hr⟩ := ih
    exact ⟨.valued word value :: segments, rfl,
      .valued hf (Node.awaitsValue_eq_true_iff.mp hv) hr⟩
  | @pending n word hf hv =>
    exact ⟨[.pending word], rfl, .pending hf (Node.awaitsValue_eq_true_iff.mp hv)⟩

/-- A reading keeps its end when children are called by other names. -/
theorem Reading.respell {n m : Node} {segments others : List Segment} (h : Reading n segments m)
    (hr : List.Forall₂ Respelled segments others) : Reading n others m := by
  induction h generalizing others with
  | done => cases hr; exact .done
  | call hf hc hw _ ih =>
    obtain _ | ⟨hs, hrest⟩ := hr
    cases hs with
    | same => exact .call hf hc hw (ih hrest)
    | name ho hfo => exact .call hfo hc ho (ih hrest)
  | flag hf hv _ ih =>
    obtain _ | ⟨⟨⟩, hrest⟩ := hr
    exact .flag hf hv (ih hrest)
  | valued hf hv _ ih =>
    obtain _ | ⟨⟨⟩, hrest⟩ := hr
    exact .valued hf hv (ih hrest)
  | pending hf hv =>
    obtain _ | ⟨⟨⟩, ⟨⟩⟩ := hr
    exact .pending hf hv

theorem not_takesNoValue {n : Node} {word : String} (h : n.TakesValue word) :
    ¬ n.TakesNoValue word := by
  intro h'
  rw [← Node.awaitsValue_eq_false_iff, Node.awaitsValue_eq_true_iff.mpr h] at h'
  cases h'

/-- **What the first word tells of a reading**: its look and what the command declares leave one
rule, but for the end of the line after a flag with a value. -/
theorem Reading.head_cases {n m : Node} {segments : List Segment} {word : String}
    {back : List String} (h : Reading n segments m)
    (hw : segments.flatMap words = word :: back) :
    (startsWith word "-" = false ∧ ∃ c rest, segments = .call c word :: rest ∧
      rest.flatMap words = back ∧ c ∈ n.children ∧ word ∈ c.names ∧ Reading c rest m) ∨
    (startsWith word "-" = true ∧ n.TakesNoValue word ∧ ∃ rest, segments = .flag word :: rest ∧
      rest.flatMap words = back ∧ Reading n rest m) ∨
    (startsWith word "-" = true ∧ n.TakesValue word ∧
      ((∃ value rest, segments = .valued word value :: rest ∧
        value :: rest.flatMap words = back ∧ Reading n rest m) ∨
      (segments = [.pending word] ∧ back = [] ∧ m = n))) := by
  cases h with
  | done => cases hw
  | call hf hc hword hr =>
    obtain ⟨rfl, rfl⟩ := List.cons.inj hw
    exact .inl ⟨hf, _, _, rfl, rfl, hc, Node.mem_names_iff.mpr hword, hr⟩
  | flag hf hv hr =>
    obtain ⟨rfl, rfl⟩ := List.cons.inj hw
    exact .inr (.inl ⟨hf, hv, _, rfl, rfl, hr⟩)
  | valued hf hv hr =>
    obtain ⟨rfl, rfl⟩ := List.cons.inj hw
    exact .inr (.inr ⟨hf, hv, .inl ⟨_, _, rfl, rfl, hr⟩⟩)
  | pending hf hv =>
    obtain ⟨rfl, rfl⟩ := List.cons.inj hw
    exact .inr (.inr ⟨hf, hv, .inr ⟨rfl, rfl, rfl⟩⟩)

/-- **There is one way to cut a line**: readings of the same words have the same segments and the
same end. -/
theorem Reading.unique {n m m' : Node} {segments others : List Segment}
    (h : Reading n segments m) (h' : Reading n others m') (hn : n.check = .ok ())
    (hw : others.flatMap words = segments.flatMap words) : segments = others ∧ m = m' := by
  -- along the first reading; its first word says how the second begins
  induction h generalizing others with
  | done =>
    cases h' with
    | done => exact ⟨rfl, rfl⟩
    | call | flag | valued | pending => cases hw
  | call hf hc hword _ ih =>
    rcases h'.head_cases hw with ⟨-, c, rest, rfl, hrest, hc', hword', hr⟩ | ⟨hf', -⟩ | ⟨hf', -⟩
    · have hnames := Node.check_eq_ok_iff.mp hn
      -- no two children share a name
      obtain rfl := Node.eq_of_mem_names hnames.2.2 hc hc' (Node.mem_names_iff.mpr hword) hword'
      obtain ⟨rfl, rfl⟩ := ih hr (hnames.2.1 _ hc).2 hrest
      exact ⟨rfl, rfl⟩
    · rw [hf] at hf'; cases hf'
    · rw [hf] at hf'; cases hf'
  | flag hf hv _ ih =>
    rcases h'.head_cases hw with ⟨hf', -⟩ | ⟨-, -, rest, rfl, hrest, hr⟩ | ⟨-, hv', -⟩
    · rw [hf] at hf'; cases hf'
    · obtain ⟨rfl, rfl⟩ := ih hr hn hrest
      exact ⟨rfl, rfl⟩
    · exact absurd hv (not_takesNoValue hv')
  | valued hf hv _ ih =>
    rcases h'.head_cases hw with ⟨hf', -⟩ | ⟨-, hv', -⟩ | ⟨-, -, hend⟩
    · rw [hf] at hf'; cases hf'
    · exact absurd hv' (not_takesNoValue hv)
    · rcases hend with ⟨value, rest, rfl, hback, hr⟩ | ⟨-, hback, -⟩
      · obtain ⟨rfl, hrest⟩ := List.cons.inj hback
        obtain ⟨rfl, rfl⟩ := ih hr hn hrest
        exact ⟨rfl, rfl⟩
      · cases hback
  | pending hf hv =>
    rcases h'.head_cases hw with ⟨hf', -⟩ | ⟨-, hv', -⟩ | ⟨-, -, hend⟩
    · rw [hf] at hf'; cases hf'
    · exact absurd hv' (not_takesNoValue hv)
    · rcases hend with ⟨value, rest, -, hback, -⟩ | ⟨rfl, -, rfl⟩
      · cases hback
      · exact ⟨rfl, rfl⟩

end Segment

/-! ## The grammar is the walk's -/

/-- **A walk over an accepted tree accepts exactly the lines that can be cut into segments**, and it
ends where they lead. A line is cut in one way only, and it still leads there when its children are
called by any others of their names. -/
theorem walk_eq_ok_iff_reading (t : Tree) (line : List String) (n : Node) :
    (t.root.walk line = .ok n ↔
      ∃ segments, line = segments.flatMap Segment.words ∧ Segment.Reading t.root segments n) ∧
    (∀ segments others m m', line = segments.flatMap Segment.words →
      line = others.flatMap Segment.words → Segment.Reading t.root segments m →
      Segment.Reading t.root others m' → segments = others ∧ m = m') ∧
    (∀ segments others, Segment.Reading t.root segments n →
      List.Forall₂ Segment.Respelled segments others →
      t.root.walk (others.flatMap Segment.words) = .ok n) := by
  refine ⟨⟨?_, ?_⟩, ?_, ?_⟩
  · intro h
    exact Segment.Reading.of_walks (Node.walk_eq_ok_iff.mp h)
  · intro h
    obtain ⟨segments, rfl, hr⟩ := h
    exact Node.walk_eq_ok_iff.mpr (hr.walks t.faultless)
  · intro segments others m m' hs ho hr hr'
    exact hr.unique hr' t.faultless (ho.symm.trans hs)
  · intro segments others hr hrespelled
    exact Node.walk_eq_ok_iff.mpr ((hr.respell hrespelled).walks t.faultless)

end Toolbox
