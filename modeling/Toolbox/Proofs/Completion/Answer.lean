import Toolbox.Completion.Offer
import Toolbox.Proofs.Completion.Stand
import Toolbox.Proofs.Text.Affix

/-!
# What a request is answered

A request holds more words than count: empty ones, the name of the program and the echo of the
fragment are taken away before the walk. `Tree.answer` is the menu for words that are committed as
they stand, and the two lemmas `complete_typed` and `complete_committed` say which requests come down
to it, so that the theorems about runs and extensions have no filtering to do.

The second half is about `Node.offer`: which of its four kinds of menu it gives, read off the word
before the cursor and the fragment.
-/

namespace Toolbox

open Text

/-! ## The committed words of a request -/

namespace Line

theorem dropProgram_cons (program : String) (words : List String) :
    dropProgram program ((program :: words).filter (· ≠ "")) = words.filter (· ≠ "") := by
  by_cases hp : program = ""
  · -- a program without a name changes nothing, for its name is an empty word itself
    subst hp
    have hskip : ∀ kept : List String, "" ∉ kept → dropProgram "" kept = kept := by
      intro kept hkept
      cases kept with
      | nil => rfl
      | cons word rest =>
        have hw : word ≠ "" := fun h => hkept (by simp [h])
        rw [dropProgram, if_neg hw]
    rw [List.filter_cons_of_neg (by simp)]
    exact hskip _ (by simp)
  · rw [List.filter_cons_of_pos (by simpa using hp), dropProgram, if_pos rfl]

theorem dropEcho_empty (words : List String) : dropEcho "" words = words := by
  simp [dropEcho]

theorem dropEcho_of_last_ne {fragment : String} {words : List String}
    (h : words.getLast? ≠ some fragment) : dropEcho fragment words = words := by
  rw [dropEcho, if_neg]
  intro h'
  exact h h'.2

theorem dropEcho_snoc {fragment : String} (hf : fragment ≠ "") (words : List String) :
    dropEcho fragment (words ++ [fragment]) = words := by
  simp [dropEcho, hf]

theorem filter_ne_empty {words : List String} (hw : ∀ word ∈ words, word ≠ "") :
    words.filter (· ≠ "") = words :=
  List.filter_eq_self.mpr fun word hm => by simpa using hw word hm

theorem committed_echoed (program : String) (words : List String) (fragment : String) :
    committed program { tokens := program :: words ++ [fragment], fragment } =
      words.filter (· ≠ "") := by
  rw [committed, List.cons_append, dropProgram_cons, List.filter_append]
  by_cases hf : fragment = ""
  · subst hf
    rw [dropEcho_empty]
    simp
  · rw [List.filter_cons_of_pos (by simpa using hf), List.filter_nil, dropEcho_snoc hf]

theorem committed_bare (program : String) {words : List String} {fragment : String}
    (hlast : (words.filter (· ≠ "")).getLast? ≠ some fragment) :
    committed program { tokens := program :: words, fragment } = words.filter (· ≠ "") := by
  rw [committed, dropProgram_cons, dropEcho_of_last_ne hlast]

theorem committed_typed (program : String) {words : List String}
    (hw : ∀ word ∈ words, word ≠ "") (fragment : String) :
    committed program { tokens := program :: words ++ [fragment], fragment } = words := by
  rw [committed_echoed, filter_ne_empty hw]

theorem committed_unechoed (program : String) {words : List String}
    (hw : ∀ word ∈ words, word ≠ "") {fragment : String} (hlast : words.getLast? ≠ some fragment) :
    committed program { tokens := program :: words, fragment } = words := by
  rw [← filter_ne_empty hw] at hlast
  rw [committed_bare program hlast, filter_ne_empty hw]

theorem committed_blank (program : String) {words : List String}
    (hw : ∀ word ∈ words, word ≠ "") :
    committed program { tokens := program :: words, fragment := "" } = words := by
  refine committed_unechoed program hw ?_
  intro hlast
  exact hw "" (List.mem_of_getLast? hlast) rfl

end Line

namespace Tree

/-- The menu for a fragment after words that are committed as they stand. -/
def answer (t : Tree) (words : List String) (fragment : String) : Menu :=
  match t.root.walk words with
  | .error e => .unknown e.word e.parent
  | .ok n => n.offer words.getLast? fragment

theorem complete_eq_answer (t : Tree) (line : Line) :
    t.complete line = t.answer (line.committed t.program) line.fragment := by
  cases h : t.root.walk (line.committed t.program) <;> simp [complete, answer, h]

/-- A request with the program in front and the fragment echoed, empty or not, is answered for the
words between the two. -/
theorem complete_typed (t : Tree) {words : List String} (hw : ∀ word ∈ words, word ≠ "")
    (fragment : String) :
    t.complete { tokens := t.program :: words ++ [fragment], fragment } =
      t.answer words fragment := by
  rw [complete_eq_answer, Line.committed_typed t.program hw]

/-- So is a request with the program in front and no echo behind. -/
theorem complete_unechoed (t : Tree) {words : List String} (hw : ∀ word ∈ words, word ≠ "")
    {fragment : String} (hlast : words.getLast? ≠ some fragment) :
    t.complete { tokens := t.program :: words, fragment } = t.answer words fragment := by
  rw [complete_eq_answer, Line.committed_unechoed t.program hw hlast]

theorem complete_committed (t : Tree) {words : List String} (hw : ∀ word ∈ words, word ≠ "") :
    t.complete { tokens := t.program :: words, fragment := "" } = t.answer words "" := by
  rw [complete_eq_answer, Line.committed_blank t.program hw]

theorem answer_of_walk_ok {t : Tree} {words : List String} {n : Node}
    (h : t.root.walk words = .ok n) (fragment : String) :
    t.answer words fragment = n.offer words.getLast? fragment := by
  rw [answer, h]

theorem answer_of_walk_error {t : Tree} {words : List String} {e : UnknownWord}
    (h : t.root.walk words = .error e) (fragment : String) :
    t.answer words fragment = .unknown e.word e.parent := by
  rw [answer, h]

end Tree

/-! ## Flags and fragments -/

theorem looksLikeFlag_append {fragment : String} (hf : fragment ≠ "") (rest : String) :
    looksLikeFlag (fragment ++ rest) = looksLikeFlag fragment := by
  rw [looksLikeFlag, looksLikeFlag, Bool.eq_iff_iff]
  constructor
  · intro h
    -- one character is enough to tell
    refine startsWith_of_append h ?_
    have hpos : fragment.length ≠ 0 := fun h0 => hf (String.length_eq_zero_iff.mp h0)
    have hdash : "-".length = 1 := by decide
    omega
  · intro h
    exact startsWith_trans (startsWith_append fragment rest) h

theorem looksLikeFlag_of_startsWith_dashes {fragment : String}
    (h : startsWith fragment "--" = true) : looksLikeFlag fragment = true :=
  startsWith_trans h (by decide)

theorem ne_empty_of_looksLikeFlag {word : String} (h : looksLikeFlag word = true) : word ≠ "" := by
  intro he
  rw [he] at h
  cases h

/-- The flag and the beginning of its value that a fragment `--flag=value` carries. -/
def inlineValue (fragment : String) : Option (String × String) :=
  if startsWith fragment "--" then cutAt '=' fragment else none

theorem inlineValue_of_no_dashes {fragment : String} (h : startsWith fragment "--" = false) :
    inlineValue fragment = none := by
  rw [inlineValue, if_neg (by simp [h])]

theorem inlineValue_of_plain {fragment : String} (h : looksLikeFlag fragment = false) :
    inlineValue fragment = none := by
  refine inlineValue_of_no_dashes ?_
  rw [← Bool.not_eq_true]
  intro hdashes
  rw [looksLikeFlag_of_startsWith_dashes hdashes] at h
  cases h

namespace Node

theorem hasNameStarting_iff {n : Node} {fragment : String} :
    n.hasNameStarting fragment = true ↔ ∃ rest, fragment ++ rest ∈ n.names := by
  simp only [hasNameStarting, List.any_eq_true, startsWith_iff_append]
  constructor
  · intro h
    obtain ⟨name, hname, rest, rfl⟩ := h
    exact ⟨rest, hname⟩
  · intro h
    obtain ⟨rest, hname⟩ := h
    exact ⟨_, hname, rest, rfl⟩

/-! ## The kinds of menu -/

theorem offer_of_value {n : Node} {previous : Option String} {fragment flag needle : String}
    (h : n.valueUnderCursor previous fragment = some (flag, needle)) :
    n.offer previous fragment = .found .value (n.valueItems flag needle) := by
  rw [offer, h]

theorem offer_of_flag {n : Node} {previous : Option String} {fragment : String}
    (h : n.valueUnderCursor previous fragment = none) (hf : looksLikeFlag fragment = true) :
    n.offer previous fragment = .found .flag (n.flagItems fragment) := by
  simp [offer, h, hf]

theorem offer_of_no_name {n : Node} {previous : Option String} {fragment : String}
    (h : n.valueUnderCursor previous fragment = none) (hf : looksLikeFlag fragment = false)
    (hne : fragment ≠ "") (hno : n.children.any (·.hasNameStarting fragment) = false) :
    n.offer previous fragment = .unknown fragment n.name := by
  simp only [offer, h, hf, Bool.false_eq_true, ↓reduceIte]
  rw [if_pos ⟨hne, by simp [hno]⟩]

theorem offer_of_name {n : Node} {previous : Option String} {fragment : String}
    (h : n.valueUnderCursor previous fragment = none) (hf : looksLikeFlag fragment = false)
    (hsome : fragment = "" ∨ n.children.any (·.hasNameStarting fragment) = true) :
    n.offer previous fragment = .found .subcommand (n.childItems fragment) := by
  simp only [offer, h, hf, Bool.false_eq_true, ↓reduceIte]
  rw [if_neg]
  intro h'
  exact hsome.elim h'.1 h'.2

/-- **What is offered at a command**: values of a flag, flags, children, or the report that nothing
is called so. -/
theorem offer_forms (n : Node) (previous : Option String) (fragment : String) :
    (∃ flag needle, n.valueUnderCursor previous fragment = some (flag, needle) ∧
      n.offer previous fragment = .found .value (n.valueItems flag needle)) ∨
    (n.valueUnderCursor previous fragment = none ∧ looksLikeFlag fragment = true ∧
      n.offer previous fragment = .found .flag (n.flagItems fragment)) ∨
    (n.valueUnderCursor previous fragment = none ∧ looksLikeFlag fragment = false ∧
      (fragment = "" ∨ ∃ c ∈ n.children, c.hasNameStarting fragment = true) ∧
      n.offer previous fragment = .found .subcommand (n.childItems fragment)) ∨
    (n.valueUnderCursor previous fragment = none ∧ looksLikeFlag fragment = false ∧
      fragment ≠ "" ∧ (∀ c ∈ n.children, c.hasNameStarting fragment = false) ∧
      n.offer previous fragment = .unknown fragment n.name) := by
  cases hv : n.valueUnderCursor previous fragment with
  | some request => exact .inl ⟨request.1, request.2, rfl, offer_of_value hv⟩
  | none =>
    cases hf : looksLikeFlag fragment with
    | true => exact .inr (.inl ⟨rfl, rfl, offer_of_flag hv hf⟩)
    | false =>
      by_cases hsome : fragment = "" ∨ n.children.any (·.hasNameStarting fragment) = true
      · exact .inr (.inr (.inl ⟨rfl, rfl, hsome.imp_right List.any_eq_true.mp,
          offer_of_name hv hf hsome⟩))
      · rw [not_or, Bool.not_eq_true] at hsome
        obtain ⟨hne, hno⟩ := hsome
        have hnone : ∀ c ∈ n.children, c.hasNameStarting fragment = false := by
          simpa using List.any_eq_false.mp hno
        exact .inr (.inr (.inr ⟨rfl, rfl, hne, hnone, offer_of_no_name hv hf hne hno⟩))

theorem mem_valueItems {n : Node} {flag needle : String} {c : Candidate} :
    c ∈ n.valueItems flag needle ↔
      ∃ f, n.findFlag flag = some f ∧ f.takesValue = true ∧
        ∃ v ∈ f.choices.getD [], startsWith v needle = true ∧ c = { insert := v } := by
  rw [valueItems]
  cases hflag : n.findFlag flag with
  | none => simp
  | some f =>
    cases htakes : f.takesValue with
    | false => simp [htakes]
    | true =>
      simp only [↓reduceIte, List.mem_map, List.mem_filter, Option.some.injEq, exists_eq_left',
        htakes, true_and]
      constructor
      · intro h
        obtain ⟨v, ⟨hv, hstart⟩, rfl⟩ := h
        exact ⟨v, hv, hstart, rfl⟩
      · intro h
        obtain ⟨v, hv, hstart, rfl⟩ := h
        exact ⟨v, ⟨hv, hstart⟩, rfl⟩

theorem mem_flagItems {n : Node} {fragment : String} {c : Candidate} :
    c ∈ n.flagItems fragment ↔
      ∃ f ∈ n.flags, ∃ s ∈ f.spellings, startsWith s fragment = true ∧
        c = { insert := s, display := f.help } := by
  simp only [flagItems, List.mem_flatMap, List.mem_map, List.mem_filter]
  constructor
  · intro h
    obtain ⟨f, hf, s, ⟨hs, hstart⟩, rfl⟩ := h
    exact ⟨f, hf, s, hs, hstart, rfl⟩
  · intro h
    obtain ⟨f, hf, s, hs, hstart, rfl⟩ := h
    exact ⟨f, hf, s, ⟨hs, hstart⟩, rfl⟩

theorem mem_childItems {n : Node} {fragment : String} {c : Candidate} :
    c ∈ n.childItems fragment ↔
      ∃ child ∈ n.children, child.hidden = false ∧ child.hasNameStarting fragment = true ∧
        c = child.asItem := by
  simp only [childItems, List.mem_map, List.mem_filter, Bool.and_eq_true, Bool.not_eq_true']
  constructor
  · intro h
    obtain ⟨child, ⟨hc, hshown, hname⟩, rfl⟩ := h
    exact ⟨child, hc, hshown, hname, rfl⟩
  · intro h
    obtain ⟨child, hc, hshown, hname, rfl⟩ := h
    exact ⟨child, ⟨hc, hshown, hname⟩, rfl⟩

/-! ## What is under the cursor -/

theorem valueUnderCursor_of_inline (n : Node) (previous : Option String) {fragment : String}
    {cut : String × String} (h : inlineValue fragment = some cut) :
    n.valueUnderCursor previous fragment = some cut := by
  rw [inlineValue] at h
  simp only [valueUnderCursor, h]

/-- Without a value in the fragment it is the last word that tells: a value is under the cursor
exactly when that word looks like a bare flag and is not known to take none. -/
theorem valueUnderCursor_eq_some_iff {n : Node} {previous : Option String} {fragment : String}
    (hinline : inlineValue fragment = none) {flag needle : String} :
    n.valueUnderCursor previous fragment = some (flag, needle) ↔
      previous = some flag ∧ looksLikeFlag flag = true ∧ holds '=' flag = false ∧
        (n.findFlag flag).all (·.takesValue) = true ∧
        ((cutAt '=' fragment).map (·.2)).getD fragment = needle := by
  rw [inlineValue] at hinline
  simp only [valueUnderCursor, hinline]
  cases previous with
  | none => simp
  | some word =>
    simp only [Option.some.injEq]
    split
    case isTrue hcond =>
      simp only [Bool.and_eq_true, Bool.not_eq_true'] at hcond
      simp only [Option.some.injEq, Prod.mk.injEq]
      constructor
      · intro h
        obtain ⟨rfl, hneedle⟩ := h
        exact ⟨rfl, hcond.1.1, hcond.1.2, hcond.2, hneedle⟩
      · intro h
        obtain ⟨rfl, -, -, -, hneedle⟩ := h
        exact ⟨rfl, hneedle⟩
    case isFalse hcond =>
      refine iff_of_false (by simp) ?_
      intro h
      obtain ⟨rfl, hf, heq, hall, -⟩ := h
      exact hcond (by simp [hf, heq, hall])

theorem valueUnderCursor_eq_none {n : Node} {previous : Option String} {fragment : String}
    (hp : ∀ word, previous = some word → looksLikeFlag word = false)
    (hf : looksLikeFlag fragment = false) : n.valueUnderCursor previous fragment = none := by
  cases hv : n.valueUnderCursor previous fragment with
  | none => rfl
  | some request =>
    obtain ⟨hword, hflag, -⟩ := (valueUnderCursor_eq_some_iff (inlineValue_of_plain hf)).mp hv
    rw [hp request.1 hword] at hflag
    cases hflag

/-- **When a fragment is refused**: it is no value, it is no flag, and no child, hidden or not, has
a name that begins with it. -/
theorem offer_kind_eq_invalid_iff {n : Node} {previous : Option String} {fragment : String} :
    (n.offer previous fragment).kind = .invalid ↔
      n.valueUnderCursor previous fragment = none ∧ looksLikeFlag fragment = false ∧
        fragment ≠ "" ∧ ∀ c ∈ n.children, ∀ rest, fragment ++ rest ∉ c.names := by
  rcases n.offer_forms previous fragment with
    ⟨flag, needle, hv, hmenu⟩ | ⟨-, hf, hmenu⟩ | ⟨-, -, hsome, hmenu⟩ | ⟨hv, hf, hne, hno, hmenu⟩
  · simp [hmenu, hv, Menu.found]
  · simp [hmenu, hf, Menu.found]
  · -- hidden children count: `offer` asks all of them for a name, and lists only those shown
    refine iff_of_false (by simp [hmenu, Menu.found]) ?_
    intro h
    obtain ⟨-, -, hne, hnames⟩ := h
    rcases hsome with hempty | ⟨c, hc, hname⟩
    · exact hne hempty
    · obtain ⟨rest, hrest⟩ := hasNameStarting_iff.mp hname
      exact hnames c hc rest hrest
  · rw [hmenu]
    refine iff_of_true rfl ⟨hv, hf, hne, ?_⟩
    intro c hc rest hname
    have hstart := hasNameStarting_iff.mpr ⟨rest, hname⟩
    rw [hno c hc] at hstart
    cases hstart

end Node

end Toolbox
