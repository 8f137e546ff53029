import Toolbox.Proofs.Completion.Grammar
import Toolbox.Proofs.Completion.Answer
import Toolbox.Proofs.Tree.Flags

/-!
# Committed values

The word behind a flag that takes a value is that value, whatever it looks like: so the walk reads
it. What follows should not depend on it. This file says how far that is true.

The menu comes from two readers of the committed words. The walk knows which *role* a word was read
in, but hands on only the command it reached; `Node.offer` is given the last word and goes by its
*look*. Where more words follow the value, or the fragment brings its own flag along, the look of
the value is never asked for. Where the value is the last word it is, and a value that looks like a
bare flag is taken for a flag whose own value is under the cursor (`Node.strayItems`).

`Tree.complete_value_eq_iff` is the exact condition: two values give one menu unless the last word
is the value and the two are not mistaken for flags alike. `Tree.sample_value_is_mistaken` is a line
on which it fails.
-/

namespace Toolbox

open Text

namespace Line

theorem dropEcho_append {fragment : String} {front : List String}
    (h : front.getLast? ≠ some fragment) (back : List String) :
    dropEcho fragment (front ++ back) = front ++ dropEcho fragment back := by
  by_cases hback : back = []
  · subst hback
    rw [List.append_nil, dropEcho_of_last_ne h, dropEcho_of_last_ne (by simp), List.append_nil]
  · have hlast : (front ++ back).getLast? = back.getLast? := by
      rw [List.getLast?_append]
      obtain ⟨init, last, rfl⟩ := List.eq_nil_or_concat' back |>.resolve_left hback
      simp
    rw [dropEcho, dropEcho, hlast, List.dropLast_append_of_ne_nil hback]
    split <;> rfl

/-- A flag and its value stay between the words before and after them. -/
theorem committed_value (program : String) (words rest : List String)
    {flag value fragment : String} (hflag : flag ≠ "") (hvalue : value ≠ "")
    (hne : value ≠ fragment) :
    committed program { tokens := program :: words ++ [flag, value] ++ rest, fragment } =
      words.filter (· ≠ "") ++ [flag, value] ++ dropEcho fragment (rest.filter (· ≠ "")) := by
  have hkept : [flag, value].filter (· ≠ "") = [flag, value] := by simp [hflag, hvalue]
  rw [committed, List.cons_append, List.cons_append, dropProgram_cons, List.filter_append,
    List.filter_append, hkept, dropEcho_append]
  simpa using hne

end Line

namespace Node

/-- What a fragment has of a value: all of it, or what follows its first `=`. -/
def typedValue (fragment : String) : String :=
  ((cutAt '=' fragment).map (·.2)).getD fragment

/-- What is offered behind a word that looks like a bare flag and is not known to take no value: the
values of that flag. Other words bring nothing of their own. -/
def strayItems (n : Node) (word fragment : String) : Option (List Candidate) :=
  if looksLikeFlag word && !holds '=' word && (n.findFlag word).all (·.takesValue) then
    some (n.valueItems word (typedValue fragment))
  else none

theorem offer_of_inline (n : Node) (previous : Option String) {fragment : String}
    {cut : String × String} (h : inlineValue fragment = some cut) :
    n.offer previous fragment = .found .value (n.valueItems cut.1 cut.2) :=
  offer_of_value (n.valueUnderCursor_of_inline previous h)

theorem valueUnderCursor_none {n : Node} {fragment : String} (h : inlineValue fragment = none) :
    n.valueUnderCursor none fragment = none := by
  rw [inlineValue] at h
  simp only [valueUnderCursor, h]

theorem offer_congr {n : Node} {previous other : Option String} {fragment : String}
    (h : n.valueUnderCursor previous fragment = n.valueUnderCursor other fragment) :
    n.offer previous fragment = n.offer other fragment := by
  rw [offer, offer, h]

/-- Behind a word the menu is that of its stray values, if it has any, and else the menu that would
be given behind no word. -/
theorem offer_some (n : Node) (word : String) {fragment : String}
    (h : inlineValue fragment = none) :
    n.offer (some word) fragment =
      ((n.strayItems word fragment).map (Menu.found .value)).getD (n.offer none fragment) := by
  rw [strayItems]
  split
  case isTrue hlook =>
    simp only [Bool.and_eq_true, Bool.not_eq_true'] at hlook
    obtain ⟨⟨hflag, hno⟩, hall⟩ := hlook
    exact offer_of_value ((valueUnderCursor_eq_some_iff h).mpr ⟨rfl, hflag, hno, hall, rfl⟩)
  case isFalse hlook =>
    refine offer_congr ?_
    rw [valueUnderCursor_none h]
    cases hv : n.valueUnderCursor (some word) fragment with
    | none => rfl
    | some request =>
      obtain ⟨flag, needle⟩ := request
      obtain ⟨hword, hflag, hno, hall, -⟩ := (valueUnderCursor_eq_some_iff h).mp hv
      obtain rfl := Option.some.inj hword
      exact absurd (by simp [hflag, hno, hall]) hlook

theorem offer_none_kind_ne_value (n : Node) {fragment : String}
    (h : inlineValue fragment = none) : (n.offer none fragment).kind ≠ .value := by
  rcases n.offer_forms none fragment with
    ⟨flag, needle, hv, -⟩ | ⟨-, -, hmenu⟩ | ⟨-, -, -, hmenu⟩ | ⟨-, -, -, -, hmenu⟩
  · rw [valueUnderCursor_none h] at hv
    cases hv
  · simp [hmenu, Menu.found]
  · simp [hmenu, Menu.found]
  · simp [hmenu, Menu.unknown]

/-- Two words give one menu exactly when the fragment decides alone, or they bring the same stray
values, or none. -/
theorem offer_some_eq_iff (n : Node) (word other fragment : String) :
    n.offer (some word) fragment = n.offer (some other) fragment ↔
      inlineValue fragment ≠ none ∨ n.strayItems word fragment = n.strayItems other fragment := by
  cases hinline : inlineValue fragment with
  | some cut =>
    rw [n.offer_of_inline _ hinline, n.offer_of_inline _ hinline]
    exact iff_of_true rfl (.inl (by simp))
  | none =>
    have hkind := n.offer_none_kind_ne_value hinline
    rw [n.offer_some word hinline, n.offer_some other hinline]
    simp only [ne_eq, not_true_eq_false, false_or]
    -- a menu of values is never the menu behind no word, and lists its items
    cases n.strayItems word fragment with
    | none =>
      cases n.strayItems other fragment with
      | none => simp
      | some items =>
        refine iff_of_false ?_ (by simp)
        intro he
        exact hkind (by rw [Option.map_none, Option.getD_none] at he; rw [he]; rfl)
    | some items =>
      cases n.strayItems other fragment with
      | none =>
        refine iff_of_false ?_ (by simp)
        intro he
        exact hkind (by rw [Option.map_none, Option.getD_none] at he; rw [← he]; rfl)
      | some items' => simp [Menu.found]

end Node

namespace Tree

variable {t : Tree} {words : List String} {n : Node}

/-- **The walk takes no notice of a value.** It goes on from the command the flag belongs to. -/
theorem answer_past_value (hwords : Stand.stepThrough ⟨t.root, false⟩ words = .ok ⟨n, false⟩)
    {flag : String} (hf : looksLikeFlag flag = true) (hawaits : n.awaitsValue flag = true)
    (value fragment : String) (back : List String) :
    t.answer (words ++ [flag, value] ++ back) fragment =
      match Stand.stepThrough ⟨n, false⟩ back with
      | .error e => .unknown e.word e.parent
      | .ok s => s.node.offer (back.getLast?.or (some value)) fragment := by
  have hvalue : Stand.stepThrough ⟨n, false⟩ [flag, value] = .ok ⟨n, false⟩ := by
    rw [Stand.stepThrough, Stand.step_flag hf, hawaits]
    rfl
  have hread : Stand.stepThrough ⟨t.root, false⟩ (words ++ [flag, value] ++ back) =
      Stand.stepThrough ⟨n, false⟩ back := by
    rw [List.append_assoc, Stand.stepThrough_append, hwords]
    simp only
    rw [Stand.stepThrough_append, hvalue]
  have hlast : (words ++ [flag, value] ++ back).getLast? = back.getLast?.or (some value) := by
    simp [List.getLast?_append, List.getLast?_cons]
  cases hback : Stand.stepThrough ⟨n, false⟩ back with
  | error e =>
    rw [hback] at hread
    exact answer_of_walk_error (Node.walk_of_stepThrough_error hread) fragment
  | ok s =>
    rw [hback] at hread
    rw [answer_of_walk_ok (Node.walk_of_stepThrough hread), hlast]

/-- **When the value of a committed flag is opaque.** Two values of one flag give the same menu
exactly when another word is committed behind them, or the fragment brings its own flag along, or
the command takes the two for flags alike: for none, or for flags with the same values to offer. -/
theorem complete_value_eq_iff (t : Tree) {words rest : List String} {n : Node}
    {steps : List Flag.Step} {flag value other fragment : String}
    (hwords : Stand.stepThrough ⟨t.root, false⟩ (words.filter (· ≠ "")) = .ok ⟨n, false⟩)
    (hfirst : n.FirstFlag flag (Flag.ofSteps steps))
    (htakes : (Flag.ofSteps steps).takesValue = true)
    (hvalue : value ≠ "") (hother : other ≠ "") (hvf : value ≠ fragment) (hof : other ≠ fragment) :
    t.complete { tokens := t.program :: words ++ [flag, value] ++ rest, fragment } =
        t.complete { tokens := t.program :: words ++ [flag, other] ++ rest, fragment } ↔
      Line.dropEcho fragment (rest.filter (· ≠ "")) ≠ [] ∨ inlineValue fragment ≠ none ∨
        n.strayItems value fragment = n.strayItems other fragment := by
  have hfound := Node.findFlag_eq_some_iff.mpr hfirst
  obtain ⟨hmem, hspelled⟩ := Node.findFlag_mem hfound
  have hf := Flag.looksLikeFlag_of_mem_ofSteps hspelled
  have hcheck := (Stand.holds_of_stepThrough hwords).check t.faultless
  have hno := Flag.holds_eq_of_check ((Node.check_eq_ok_iff.mp hcheck).1 _ hmem) hspelled hf
  have hawaits : n.awaitsValue flag = true :=
    Node.awaitsValue_eq_true_iff.mpr ⟨hno, _, hfirst, htakes⟩
  rw [complete_eq_answer, complete_eq_answer,
    Line.committed_value _ _ _ (ne_empty_of_looksLikeFlag hf) hvalue hvf,
    Line.committed_value _ _ _ (ne_empty_of_looksLikeFlag hf) hother hof,
    answer_past_value hwords hf hawaits, answer_past_value hwords hf hawaits]
  rcases List.eq_nil_or_concat' (Line.dropEcho fragment (rest.filter (· ≠ ""))) with
    hback | ⟨init, last, hback⟩
  · -- the value is the last word, and is looked at
    rw [hback]
    simpa [Stand.stepThrough] using n.offer_some_eq_iff value other fragment
  · rw [hback]
    refine iff_of_true ?_ (.inl (by simp))
    cases Stand.stepThrough ⟨n, false⟩ (init ++ [last]) <;> simp

/-- Behind `init -n -n` and `init -n dev` the word `contracts` gives one menu, though the first of
the two values is spelled like the flag itself. -/
theorem sample_complete_value_eq :
    sample.complete { tokens := ["dot", "init", "-n", "-n", "contracts"], fragment := "" } =
      sample.complete { tokens := ["dot", "init", "-n", "dev", "contracts"], fragment := "" } :=
  (@complete_value_eq_iff sample ["init"] ["contracts"] _
    [.long "network", .short 'n', .choices ["dev", "test"]] "-n" "-n" "dev" "" rfl
    ⟨[], [], rfl, by decide, by simp⟩ rfl (by decide) (by decide) (by decide)
    (by decide)).mpr (.inl (by decide))

/-- After `init --network` the word `-n` is a value for the walk, and a flag for the menu: the menu
is not the one behind the value `dev`. It offers `dev` as the value of `-n`, and on the line that
this leads to the walk does not know `dev`. -/
theorem sample_value_is_mistaken :
    ∃ n steps, Stand.stepThrough ⟨sample.root, false⟩ ["init"] = .ok ⟨n, false⟩ ∧
      n.FirstFlag "--network" (Flag.ofSteps steps) ∧ (Flag.ofSteps steps).takesValue = true ∧
      sample.complete { tokens := ["dot", "init", "--network", "-n"], fragment := "" } ≠
        sample.complete { tokens := ["dot", "init", "--network", "dev"], fragment := "" } ∧
      "dev" ∈ (sample.complete
        { tokens := ["dot", "init", "--network", "-n"], fragment := "" }).inserts ∧
      sample.complete { tokens := ["dot", "init", "--network", "-n", "dev"], fragment := "" } =
        .unknown "dev" "init" := by
  refine ⟨_, [.long "network", .short 'n', .choices ["dev", "test"]], rfl,
    ⟨[], [], rfl, by decide, by simp⟩, rfl, ?_, ?_, ?_⟩
  · decide +kernel
  · decide +kernel
  · decide +kernel

end Tree

end Toolbox
