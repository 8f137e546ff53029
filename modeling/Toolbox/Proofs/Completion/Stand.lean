import Mathlib.Data.List.Basic
import Toolbox.Completion.Walk
import Toolbox.Proofs.Tree.Accepted

/-!
# The walk, one word at a time

`Node.walk` reads a flag together with its value, so where it stands after some of the words cannot
be asked of it: the next word may be a value or a command. Here the walk is a machine that takes one
word per step. Its state is the command reached and whether the last word was a flag whose value is
still to come, and `Node.walk_eq_stepThrough` is the agreement with `Node.walk`.

What the machine is for is `Stand.stepThrough_append`: what was read first decides where the rest is
read, and a word that cannot be read ends the walk whatever follows.
-/

namespace Toolbox

open Text

/-- Where a walk stands. -/
structure Stand where
  /-- The command reached. -/
  node : Node
  /-- Whether the last word is a flag of that command whose value is still to come. -/
  awaiting : Bool

namespace Stand

/-- Where a walk stands after one more word. -/
def step (s : Stand) (word : String) : Except UnknownWord Stand :=
  if s.awaiting then .ok ⟨s.node, false⟩
  else if looksLikeFlag word then .ok ⟨s.node, s.node.awaitsValue word⟩
  else
    match s.node.findChild word with
    | none => .error ⟨word, s.node.name⟩
    | some child => .ok ⟨child, false⟩

/-- Where a walk stands after the words, or the first word that cannot be read. -/
def stepThrough : Stand → List String → Except UnknownWord Stand
  | s, [] => .ok s
  | s, word :: rest =>
    match s.step word with
    | .error e => .error e
    | .ok next => next.stepThrough rest

/-! ## One step -/

theorem step_awaiting {n : Node} (word : String) : step ⟨n, true⟩ word = .ok ⟨n, false⟩ := rfl

theorem step_flag {n : Node} {word : String} (hf : looksLikeFlag word = true) :
    step ⟨n, false⟩ word = .ok ⟨n, n.awaitsValue word⟩ := by
  simp [step, hf]

theorem step_child {n c : Node} {word : String} (hf : looksLikeFlag word = false)
    (hc : n.findChild word = some c) : step ⟨n, false⟩ word = .ok ⟨c, false⟩ := by
  simp [step, hf, hc]

theorem step_unknown {n : Node} {word : String} (hf : looksLikeFlag word = false)
    (hc : n.findChild word = none) : step ⟨n, false⟩ word = .error ⟨word, n.name⟩ := by
  simp [step, hf, hc]

/-- **What a step can do**: take a value, pass over a flag, or go down to a child. -/
theorem step_cases {s next : Stand} {word : String} (h : s.step word = .ok next) :
    (s.awaiting = true ∧ next = ⟨s.node, false⟩) ∨
    (s.awaiting = false ∧ looksLikeFlag word = true ∧
      next = ⟨s.node, s.node.awaitsValue word⟩) ∨
    (s.awaiting = false ∧ looksLikeFlag word = false ∧
      ∃ c, s.node.findChild word = some c ∧ next = ⟨c, false⟩) := by
  obtain ⟨n, awaiting⟩ := s
  cases awaiting with
  | true =>
    rw [step_awaiting] at h
    cases h
    exact .inl ⟨rfl, rfl⟩
  | false =>
    cases hf : looksLikeFlag word with
    | true =>
      rw [step_flag hf] at h
      cases h
      exact .inr (.inl ⟨rfl, rfl, rfl⟩)
    | false =>
      cases hc : n.findChild word with
      | none => rw [step_unknown hf hc] at h; cases h
      | some c =>
        rw [step_child hf hc] at h
        cases h
        exact .inr (.inr ⟨rfl, rfl, c, rfl, rfl⟩)

/-- **When a step fails**: in command position, at a word that is no flag and calls no child. -/
theorem step_eq_error_iff {s : Stand} {word : String} {e : UnknownWord} :
    s.step word = .error e ↔
      s.awaiting = false ∧ looksLikeFlag word = false ∧ s.node.findChild word = none ∧
        e = ⟨word, s.node.name⟩ := by
  obtain ⟨n, awaiting⟩ := s
  cases awaiting with
  | true => simp [step_awaiting]
  | false =>
    cases hf : looksLikeFlag word with
    | true => simp [step_flag hf]
    | false =>
      cases hc : n.findChild word with
      | none => simp [step_unknown hf hc, eq_comm]
      | some c => simp [step_child hf hc]

theorem looksLikeFlag_of_step {s next : Stand} {word : String} (h : s.step word = .ok next)
    (ha : next.awaiting = true) : looksLikeFlag word = true := by
  rcases step_cases h with ⟨-, rfl⟩ | ⟨-, hf, -⟩ | ⟨-, -, c, -, rfl⟩
  · cases ha
  · exact hf
  · cases ha

theorem holds_of_step {s next : Stand} {word : String} (h : s.step word = .ok next) :
    s.node.Holds next.node := by
  rcases step_cases h with ⟨-, rfl⟩ | ⟨-, -, rfl⟩ | ⟨-, -, c, hc, rfl⟩
  · exact .self
  · exact .self
  · exact .child (Node.findChild_mem hc).1 .self

/-! ## Many steps -/

/-- **A walk goes on where it stood**, and does not go on after a word that could not be read. -/
theorem stepThrough_append (s : Stand) (front back : List String) :
    s.stepThrough (front ++ back) =
      match s.stepThrough front with
      | .error e => .error e
      | .ok next => next.stepThrough back := by
  induction front generalizing s with
  | nil => rfl
  | cons word rest ih =>
    rw [List.cons_append, stepThrough, stepThrough]
    cases s.step word with
    | error e => rfl
    | ok next => exact ih next

theorem stepThrough_snoc {s next : Stand} {words : List String}
    (h : s.stepThrough words = .ok next) (word : String) :
    s.stepThrough (words ++ [word]) = next.step word := by
  rw [stepThrough_append, h]
  cases hs : next.step word <;> simp [stepThrough, hs]

theorem stepThrough_snoc_ok {s next : Stand} {words : List String} {word : String}
    (h : s.stepThrough (words ++ [word]) = .ok next) :
    ∃ mid, s.stepThrough words = .ok mid ∧ mid.step word = .ok next := by
  cases hmid : s.stepThrough words with
  | error e => rw [stepThrough_append, hmid] at h; cases h
  | ok mid => exact ⟨mid, rfl, by rw [← stepThrough_snoc hmid]; exact h⟩

theorem stepThrough_append_error {s : Stand} {front : List String} {e : UnknownWord}
    (h : s.stepThrough front = .error e) (back : List String) :
    s.stepThrough (front ++ back) = .error e := by
  rw [stepThrough_append, h]

/-- A walk fails at the first word that a step fails at. -/
theorem stepThrough_eq_error_iff {s : Stand} {words : List String} {e : UnknownWord} :
    s.stepThrough words = .error e ↔
      ∃ front word next, front ++ [word] <+: words ∧ s.stepThrough front = .ok next ∧
        next.step word = .error e := by
  constructor
  · intro h
    induction words generalizing s with
    | nil => cases h
    | cons word rest ih =>
      rw [stepThrough] at h
      cases hs : s.step word with
      | error e' =>
        rw [hs] at h
        cases h
        exact ⟨[], word, s, List.prefix_append [word] rest, rfl, hs⟩
      | ok mid =>
        rw [hs] at h
        obtain ⟨front, last, next, hpre, hfront, hlast⟩ := ih h
        refine ⟨word :: front, last, next, List.prefix_cons_inj word |>.mpr hpre, ?_, hlast⟩
        rw [stepThrough, hs]
        exact hfront
  · intro h
    obtain ⟨front, word, next, ⟨back, rfl⟩, hfront, hword⟩ := h
    apply stepThrough_append_error
    rw [stepThrough_snoc hfront, hword]

theorem holds_of_stepThrough {s next : Stand} {words : List String}
    (h : s.stepThrough words = .ok next) : s.node.Holds next.node := by
  induction words generalizing s with
  | nil => cases h; exact .self
  | cons word rest ih =>
    rw [stepThrough] at h
    cases hs : s.step word with
    | error e => rw [hs] at h; cases h
    | ok mid => rw [hs] at h; exact (holds_of_step hs).trans (ih h)

/-- After words that do not end in a flag no value is awaited. -/
theorem awaiting_eq_false {n : Node} {next : Stand} {words : List String}
    (h : stepThrough ⟨n, false⟩ words = .ok next)
    (hlast : ∀ word, words.getLast? = some word → looksLikeFlag word = false) :
    next.awaiting = false := by
  rcases List.eq_nil_or_concat' words with rfl | ⟨front, word, rfl⟩
  · cases h; rfl
  · obtain ⟨mid, -, hs⟩ := stepThrough_snoc_ok h
    have hw : looksLikeFlag word = false := hlast word (by simp)
    cases ha : next.awaiting with
    | false => rfl
    | true =>
      rw [looksLikeFlag_of_step hs ha] at hw
      cases hw

end Stand

namespace Node

/-- **The walk is the machine's**, with what is still awaited left out. -/
theorem walk_eq_stepThrough (n : Node) (words : List String) :
    n.walk words = (Stand.stepThrough ⟨n, false⟩ words).map Stand.node := by
  fun_induction walk n words with
  | case1 n => rfl
  | case2 n word hf hv => rw [Stand.stepThrough, Stand.step_flag hf]; rfl
  | case3 n word hf hv value rest ih =>
    rw [Stand.stepThrough, Stand.step_flag hf, hv, ih]; rfl
  | case4 n word rest hf hv ih =>
    rw [Bool.not_eq_true] at hv
    rw [Stand.stepThrough, Stand.step_flag hf, hv, ih]
  | case5 n word rest hf hc =>
    rw [Bool.not_eq_true] at hf
    rw [Stand.stepThrough, Stand.step_unknown hf hc]; rfl
  | case6 n word rest hf c hc ih =>
    rw [Bool.not_eq_true] at hf
    rw [Stand.stepThrough, Stand.step_child hf hc, ih]

theorem walk_of_stepThrough {n : Node} {s : Stand} {words : List String}
    (h : Stand.stepThrough ⟨n, false⟩ words = .ok s) : n.walk words = .ok s.node := by
  rw [walk_eq_stepThrough, h]; rfl

theorem walk_of_stepThrough_error {n : Node} {e : UnknownWord} {words : List String}
    (h : Stand.stepThrough ⟨n, false⟩ words = .error e) : n.walk words = .error e := by
  rw [walk_eq_stepThrough, h]; rfl

theorem holds_of_walk {n m : Node} {words : List String} (h : n.walk words = .ok m) :
    n.Holds m := by
  rw [walk_eq_stepThrough] at h
  cases hread : Stand.stepThrough ⟨n, false⟩ words with
  | error e => rw [hread] at h; cases h
  | ok s =>
    rw [hread] at h
    obtain rfl := Except.ok.inj h
    exact Stand.holds_of_stepThrough hread

end Node

end Toolbox
