import Toolbox.Program.Surface
import Toolbox.Proofs.Completion.Extension
import Toolbox.Surface.Equip
import Toolbox.Surface.Outline

/-!
# Taking what is offered

A user who types fragments and takes a candidate each time builds up a line word by word. This file
follows such runs, of any length and with any fragments in between, and shows that the line never
goes wrong: it leads to the command that the subcommands taken lead to, and it is never refused.

`Tree.Picked` is the run. What carries the proof is `Tree.Settled`, and in it the clause `awaiting`:

> a value is awaited exactly when the last word is a flag that takes one.

`Node.offer` decides by the *look* of the last word whether a value is being typed, the walk by the
*role* that word was read in. The two differ after a value that looks like a flag; the clause says
that a run of picks never commits one. It is why choices must not look like flags (`Node.isPlain`),
and why taking `--flag=value` does no harm even where another flag still awaits its value: a word
with a `=` in it asks for nothing.
-/

namespace Toolbox

open Text

/-! ## Runs of picks -/

/-- The word on the line once the candidate is taken for the fragment. What a fragment `--flag=value`
has up to its first `=` stays. -/
def Candidate.wordFor (fragment : String) (c : Candidate) : String :=
  match inlineValue fragment with
  | some (flag, _) => flag ++ "=" ++ c.insert
  | none => c.insert

/-- The menu for a fragment typed after the words. -/
def Tree.menuAfter (t : Tree) (words : List String) (fragment : String) : Menu :=
  t.complete { tokens := t.program :: words ++ [fragment], fragment }

/-- The name of the subcommand that taking `c` from the menu calls, if the menu is one of
subcommands. -/
def Menu.called (m : Menu) (c : Candidate) : List String :=
  if m.kind = .subcommand then [c.insert] else []

/-- A run of picks: the words it has committed, and the names of the subcommands among what was
taken, in order. -/
inductive Tree.Picked (t : Tree) : List String → List String → Prop where
  | start : Picked t [] []
  | pick {words names : List String} {fragment : String} {c : Candidate} :
      Picked t words names → c ∈ (t.menuAfter words fragment).items →
      Picked t (words ++ [c.wordFor fragment]) (names ++ (t.menuAfter words fragment).called c)

/-- The command reached from child to child, each called by its primary name. -/
def Node.follow : Node → List String → Option Node
  | n, [] => some n
  | n, name :: rest =>
    match n.children.find? (·.name = name) with
    | none => none
    | some c => c.follow rest

theorem Candidate.wordFor_inline {fragment : String} {cut : String × String} (c : Candidate)
    (h : inlineValue fragment = some cut) :
    looksLikeFlag (c.wordFor fragment) = true ∧ holds '=' (c.wordFor fragment) = true := by
  obtain ⟨flag, value⟩ := cut
  have hword : c.wordFor fragment = flag ++ "=" ++ c.insert := by rw [wordFor, h]
  rw [inlineValue] at h
  split at h
  case isFalse => cases h
  case isTrue hdashes =>
    obtain ⟨rfl, -⟩ := cutAt_eq_some_iff.mp h
    rw [hword]
    constructor
    · -- the dash stands before the `=`, and so in what is kept of the fragment
      have hfront : looksLikeFlag (flag ++ "=") = true := by
        refine startsWith_of_append (looksLikeFlag_of_startsWith_dashes hdashes) ?_
        rw [String.length_append]
        exact Nat.le_add_left _ _
      exact startsWith_trans (startsWith_append _ _) hfront
    · have heq : holds '=' "=" = true := by decide
      rw [holds_append, holds_append, heq]
      simp

mutual

/-- No command below has a primary name that looks like a flag, and no choice of a flag is empty or
looks like a flag. -/
def Node.isPlain : Node → Bool
  | ⟨_, _, _, _, flags, children⟩ =>
    (flags.all fun f => (f.choices.getD []).all fun v => v ≠ "" && !looksLikeFlag v) &&
      allPlain children

/-- The same of every one of the commands, their own primary names included. -/
def allPlain : List Node → Bool
  | [] => true
  | c :: rest => !looksLikeFlag c.name && c.isPlain && allPlain rest

end

namespace Node

theorem allPlain_iff {children : List Node} :
    allPlain children = true ↔
      ∀ c ∈ children, looksLikeFlag c.name = false ∧ c.isPlain = true := by
  induction children with
  | nil => simp [allPlain]
  | cons c rest ih => simp [allPlain, ih]

theorem isPlain_iff {n : Node} :
    n.isPlain = true ↔
      (∀ f ∈ n.flags, ∀ v ∈ f.choices.getD [], v ≠ "" ∧ looksLikeFlag v = false) ∧
      ∀ c ∈ n.children, looksLikeFlag c.name = false ∧ c.isPlain = true := by
  obtain ⟨name, aliases, about, hidden, flags, children⟩ := n
  simp [isPlain, allPlain_iff]

theorem Holds.isPlain {n m : Node} (hm : n.Holds m) (h : n.isPlain = true) : m.isPlain = true := by
  induction hm with
  | self => exact h
  | child hc _ ih => exact ih ((isPlain_iff.mp h).2 _ hc).2

theorem follow_snoc {n m : Node} {names : List String} (h : n.follow names = some m)
    (name : String) : n.follow (names ++ [name]) = m.follow [name] := by
  induction names generalizing n with
  | nil => cases h; rfl
  | cons first rest ih =>
    rw [follow] at h
    rw [List.cons_append, follow]
    cases hc : n.children.find? (·.name = first) with
    | none => rw [hc] at h; cases h
    | some c => rw [hc] at h; exact ih h

theorem follow_child {n c : Node} (h : n.check = .ok ()) (hc : c ∈ n.children) :
    n.follow [c.name] = some c := by
  have hown : ∀ d : Node, d.name ∈ d.names := fun d => List.mem_cons_self
  cases hd : n.children.find? (·.name = c.name) with
  | none => simpa using List.find?_eq_none.mp hd c hc
  | some d =>
    have hname : d.name = c.name := by simpa using List.find?_some hd
    -- names are distinct, so the first child of that name is the only one
    have heq : d = c := eq_of_mem_names (check_eq_ok_iff.mp h).2.2 (List.mem_of_find?_eq_some hd)
      hc (hown d) (hname ▸ hown c)
    rw [follow, hd, heq]
    rfl

/-! ## What is under the cursor when something is offered -/

theorem not_awaitsValue_of_no_value {n : Node} {previous : Option String} {fragment word : String}
    (h : n.valueUnderCursor previous fragment = none) (hp : previous = some word)
    (hf : looksLikeFlag word = true) : n.awaitsValue word = false := by
  have hinline : inlineValue fragment = none := by
    cases hcut : inlineValue fragment with
    | none => rfl
    | some cut => rw [valueUnderCursor_of_inline n previous hcut] at h; cases h
  rw [← Bool.not_eq_true]
  intro hv
  rw [awaitsValue, Bool.and_eq_true, Bool.not_eq_true'] at hv
  -- a flag with a value still to come has that value under the cursor
  have hall : (n.findFlag word).all (·.takesValue) = true := by
    cases hflag : n.findFlag word with
    | none => rfl
    | some f => rw [hflag] at hv; exact hv.2
  rw [(valueUnderCursor_eq_some_iff hinline).mpr ⟨hp, hf, hv.1, hall, rfl⟩] at h
  cases h

/-- **What can be offered**: a choice of the flag under the cursor; a spelling of a flag, or a
subcommand by its primary name, where no value is under the cursor. -/
theorem offer_cases {n : Node} {previous : Option String} {fragment : String} {c : Candidate}
    (h : c ∈ (n.offer previous fragment).items) :
    (∃ flag needle, n.valueUnderCursor previous fragment = some (flag, needle) ∧
      (n.offer previous fragment).kind = .value ∧
      ∃ f, n.findFlag flag = some f ∧ f.takesValue = true ∧ c.insert ∈ f.choices.getD []) ∨
    (n.valueUnderCursor previous fragment = none ∧ (n.offer previous fragment).kind = .flag ∧
      looksLikeFlag c.insert = true) ∨
    (n.valueUnderCursor previous fragment = none ∧
      (n.offer previous fragment).kind = .subcommand ∧
      ∃ child ∈ n.children, c.insert = child.name) := by
  rcases n.offer_forms previous fragment with
    ⟨flag, needle, hv, hmenu⟩ | ⟨hv, hf, hmenu⟩ | ⟨hv, -, -, hmenu⟩ | ⟨-, -, -, -, hmenu⟩
  · rw [hmenu] at h ⊢
    obtain ⟨f, hflag, htakes, v, hmem, -, rfl⟩ := mem_valueItems.mp h
    exact .inl ⟨flag, needle, hv, rfl, f, hflag, htakes, hmem⟩
  · rw [hmenu] at h ⊢
    obtain ⟨f, -, spelling, -, hstart, rfl⟩ := mem_flagItems.mp h
    -- what begins with a fragment that looks like a flag looks like one too
    exact .inr (.inl ⟨hv, rfl, startsWith_trans hstart hf⟩)
  · rw [hmenu] at h ⊢
    obtain ⟨child, hc, -, -, rfl⟩ := mem_childItems.mp h
    exact .inr (.inr ⟨hv, rfl, child, hc, rfl⟩)
  · rw [hmenu] at h
    cases h

end Node

/-! ## What a run keeps -/

namespace Tree

/-- Where a run has come to: its words are read up to `s`, which is at the command that the
subcommands taken lead to. -/
structure Settled (t : Tree) (words names : List String) (s : Stand) : Prop where
  nonempty : ∀ word ∈ words, word ≠ ""
  reads : Stand.stepThrough ⟨t.root, false⟩ words = .ok s
  follows : t.root.follow names = some s.node
  /-- A value is awaited exactly when the last word is a flag that takes one. -/
  awaiting : s.awaiting =
    words.getLast?.any fun word => looksLikeFlag word && s.node.awaitsValue word

namespace Settled

variable {t : Tree} {words names : List String} {s : Stand}

theorem start : t.Settled [] [] ⟨t.root, false⟩ where
  nonempty := by simp
  reads := rfl
  follows := rfl
  awaiting := rfl

/-- One more word keeps a run settled if a value is awaited after it as its look says. -/
theorem snoc (h : t.Settled words names s) {names' : List String} {next : Stand} {word : String}
    (hne : word ≠ "") (hstep : s.step word = .ok next)
    (hfollows : t.root.follow names' = some next.node)
    (hawaiting : next.awaiting = (looksLikeFlag word && next.node.awaitsValue word)) :
    t.Settled (words ++ [word]) names' next where
  nonempty other ho := by
    rcases List.mem_append.mp ho with ho | ho
    · exact h.nonempty other ho
    · rw [List.mem_singleton.mp ho]
      exact hne
  reads := by rw [Stand.stepThrough_snoc h.reads, hstep]
  follows := hfollows
  awaiting := by rw [hawaiting]; simp

theorem menuAfter_eq (h : t.Settled words names s) (fragment : String) :
    t.menuAfter words fragment = s.node.offer words.getLast? fragment := by
  rw [menuAfter, complete_typed t h.nonempty,
    answer_of_walk_ok (Node.walk_of_stepThrough h.reads)]

theorem awaiting_eq_false (h : t.Settled words names s) {fragment : String}
    (hv : s.node.valueUnderCursor words.getLast? fragment = none) : s.awaiting = false := by
  rw [h.awaiting]
  cases hlast : words.getLast? with
  | none => rfl
  | some word =>
    cases hf : looksLikeFlag word with
    | false => simp [hf]
    | true => simp [hf, Node.not_awaitsValue_of_no_value hv hlast hf]

theorem awaiting_eq_true (h : t.Settled words names s) {flag : String} {f : Flag}
    (hlast : words.getLast? = some flag) (hf : looksLikeFlag flag = true)
    (heq : holds '=' flag = false) (hflag : s.node.findFlag flag = some f)
    (htakes : f.takesValue = true) : s.awaiting = true := by
  rw [h.awaiting, hlast]
  simp [hf, Node.awaitsValue, heq, hflag, htakes]

theorem pick_inline (h : t.Settled words names s) {word : String} (hf : looksLikeFlag word = true)
    (heq : holds '=' word = true) : t.Settled (words ++ [word]) names ⟨s.node, false⟩ := by
  have hv : s.node.awaitsValue word = false := by simp [Node.awaitsValue, heq]
  refine h.snoc (ne_empty_of_looksLikeFlag hf) ?_ h.follows (by simp [hv])
  obtain ⟨n, awaiting⟩ := s
  -- it may be the value that another flag awaits; no value is awaited after it either way
  cases awaiting with
  | true => exact Stand.step_awaiting word
  | false => rw [Stand.step_flag hf, hv]

theorem pick_value (h : t.Settled words names s) {value : String} (hawaiting : s.awaiting = true)
    (hne : value ≠ "") (hf : looksLikeFlag value = false) :
    t.Settled (words ++ [value]) names ⟨s.node, false⟩ := by
  refine h.snoc hne ?_ h.follows (by simp [hf])
  obtain ⟨n, awaiting⟩ := s
  obtain rfl : awaiting = true := hawaiting
  exact Stand.step_awaiting value

theorem pick_flag (h : t.Settled words names s) {word : String} (hawaiting : s.awaiting = false)
    (hf : looksLikeFlag word = true) :
    t.Settled (words ++ [word]) names ⟨s.node, s.node.awaitsValue word⟩ := by
  refine h.snoc (ne_empty_of_looksLikeFlag hf) ?_ h.follows (by simp [hf])
  obtain ⟨n, awaiting⟩ := s
  obtain rfl : awaiting = false := hawaiting
  exact Stand.step_flag hf

theorem pick_child (h : t.Settled words names s) (hplain : t.root.isPlain = true) {c : Node}
    (hawaiting : s.awaiting = false) (hc : c ∈ s.node.children) :
    t.Settled (words ++ [c.name]) (names ++ [c.name]) ⟨c, false⟩ := by
  have hholds : t.root.Holds s.node := Stand.holds_of_stepThrough h.reads
  have hcheck := hholds.check t.faultless
  have hf := ((Node.isPlain_iff.mp (hholds.isPlain hplain)).2 c hc).1
  have hne := ((Node.check_eq_ok_iff.mp hcheck).2.1 c hc).1
  refine h.snoc hne ?_ ?_ (by simp [hf])
  · obtain ⟨n, awaiting⟩ := s
    obtain rfl : awaiting = false := hawaiting
    refine Stand.step_child hf ((Node.findChild_eq_some_iff hcheck).mpr ⟨hc, ?_⟩)
    exact List.mem_cons_self
  · rw [Node.follow_snoc h.follows]
    exact Node.follow_child hcheck hc

/-- **Taking a candidate keeps a run settled.** -/
theorem pick (h : t.Settled words names s) (hplain : t.root.isPlain = true) {fragment : String}
    {c : Candidate} (hc : c ∈ (t.menuAfter words fragment).items) :
    ∃ next, t.Settled (words ++ [c.wordFor fragment])
      (names ++ (t.menuAfter words fragment).called c) next := by
  rw [h.menuAfter_eq] at hc ⊢
  have hchoices := (Node.isPlain_iff.mp
    ((Stand.holds_of_stepThrough h.reads).isPlain hplain)).1
  cases hinline : inlineValue fragment with
  | some cut =>
    obtain ⟨flag, needle⟩ := cut
    have hv := Node.valueUnderCursor_of_inline s.node words.getLast? hinline
    obtain ⟨hf, heq⟩ := c.wordFor_inline hinline
    rw [Menu.called, Node.offer_of_value hv, if_neg (by simp [Menu.found]), List.append_nil]
    exact ⟨_, h.pick_inline hf heq⟩
  | none =>
    have hword : c.wordFor fragment = c.insert := by rw [Candidate.wordFor, hinline]
    rw [hword]
    rcases Node.offer_cases hc with ⟨flag, needle, hv, hkind, f, hflag, htakes, hmem⟩ |
      ⟨hv, hkind, hf⟩ | ⟨hv, hkind, child, hchild, hinsert⟩
    · obtain ⟨hlast, hf, heq, -⟩ := (Node.valueUnderCursor_eq_some_iff hinline).mp hv
      have hawaiting := h.awaiting_eq_true hlast hf heq hflag htakes
      obtain ⟨hne, hplainValue⟩ := hchoices f (Node.findFlag_mem hflag).1 _ hmem
      rw [Menu.called, hkind, if_neg (by decide), List.append_nil]
      exact ⟨_, h.pick_value hawaiting hne hplainValue⟩
    · rw [Menu.called, hkind, if_neg (by decide), List.append_nil]
      exact ⟨_, h.pick_flag (h.awaiting_eq_false hv) hf⟩
    · rw [Menu.called, hkind, if_pos rfl, hinsert]
      exact ⟨_, h.pick_child hplain (h.awaiting_eq_false hv) hchild⟩

theorem of_picked (hplain : t.root.isPlain = true) (h : t.Picked words names) :
    ∃ s, t.Settled words names s := by
  induction h with
  | start => exact ⟨_, start⟩
  | pick _ hc ih =>
    obtain ⟨s, hs⟩ := ih
    exact hs.pick hplain hc

end Settled

/-- **Taking what is offered never leads to an error.** After any run of picks the words lead to the
command that the subcommands taken lead to, and the line is not refused. -/
theorem walk_of_picked (t : Tree) (hplain : t.root.isPlain = true) {words names : List String}
    (h : t.Picked words names) :
    ∃ n, t.root.follow names = some n ∧ t.root.walk words = .ok n ∧
      (t.complete { tokens := t.program :: words, fragment := "" }).kind ≠ .invalid := by
  obtain ⟨s, hs⟩ := Settled.of_picked hplain h
  refine ⟨s.node, hs.follows, Node.walk_of_stepThrough hs.reads, ?_⟩
  rw [complete_committed t hs.nonempty, answer_of_walk_ok (Node.walk_of_stepThrough hs.reads)]
  exact s.node.offer_blank_kind_ne_invalid _

/-- A subcommand, a flag, the value of that flag in the form `--flag=value`, and a subcommand again:
the flag takes the third word for its value, and the line still leads to `init contracts`. -/
theorem sample_walk_of_picked :
    sample.Picked ["init", "-n", "--network=test", "contracts"] ["init", "contracts"] ∧
      ∃ n, sample.root.follow ["init", "contracts"] = some n ∧
        sample.root.walk ["init", "-n", "--network=test", "contracts"] = .ok n ∧
        (sample.complete { tokens := ["dot", "init", "-n", "--network=test", "contracts"],
                           fragment := "" }).kind ≠ .invalid := by
  have h₁ : sample.Picked ["init"] ["init"] :=
    @Picked.pick sample [] [] "i" { insert := "init" } .start (by decide +kernel)
  have h₂ : sample.Picked ["init", "-n"] ["init"] :=
    @Picked.pick sample _ _ "-" { insert := "-n" } h₁ (by decide +kernel)
  have h₃ : sample.Picked ["init", "-n", "--network=test"] ["init"] :=
    @Picked.pick sample _ _ "--network=te" { insert := "test" } h₂ (by decide +kernel)
  have h₄ : sample.Picked ["init", "-n", "--network=test", "contracts"] ["init", "contracts"] :=
    @Picked.pick sample _ _ "" { insert := "contracts" } h₃ (by decide +kernel)
  exact ⟨h₄, sample.walk_of_picked (by decide +kernel) h₄⟩

/-- The commands of `dot` itself are plain. -/
example : Program.dot.forCompletion.tree.toOption.any (·.root.isPlain) = true := by
  decide +kernel

end Tree

end Toolbox
