import Toolbox.Proofs.Completion.Values

/-!
# Values being typed

The value of a flag is typed in one of two shapes: in one word with the flag, `--flag=value`, or as
a word of its own behind the flag. The two come to `Node.offer` by different ways. In the first the
fragment brings the flag along and the walk never sees it; in the second the flag is the last word
of the walk, which may even have taken it for the value of another flag. This file shows what is
offered in either shape.

* Behind a flag that is not known to take no value the menu is one of values, whatever the fragment
  is, and whether or not the walk took the flag for a flag (`Node.offer_behind_flag`).
* The two shapes get one menu, but for the flags that are known to take no value
  (`Tree.complete_inline_eq_spaced_iff`).
* The values offered are those choices of the flag that begin with what is typed of a value
  (`Tree.complete_inserts_choices`).

What counts as typed is `Node.typedValue`: a fragment with a `=` in it counts from behind the first
`=` only, in both shapes. So the text that is offered need not begin with the fragment, and
`Tree.sample_offers_behind_equals` is a line on which it does not.
-/

namespace Toolbox

open Text

/-! ## Fragments -/

section Fragments

variable {flag value key rest fragment : String}

theorem cutAt_equals (h : holds '=' key = false) :
    cutAt '=' (key ++ "=" ++ rest) = some (key, rest) :=
  cutAt_eq_some_iff.mpr ⟨rfl, h⟩

theorem inlineValue_append (hdashes : startsWith flag "--" = true) (h : holds '=' flag = false) :
    inlineValue (flag ++ "=" ++ value) = some (flag, value) := by
  have hword : startsWith (flag ++ "=" ++ value) "--" = true := by
    rw [String.append_assoc]
    exact startsWith_trans (startsWith_append _ _) hdashes
  rw [inlineValue, if_pos hword, cutAt_equals h]

theorem inlineValue_of_holds_eq_false (h : holds '=' fragment = false) :
    inlineValue fragment = none := by
  rw [inlineValue, cutAt_eq_none_iff.mpr h]
  exact ite_self _

theorem Node.typedValue_of_holds_eq_false (h : holds '=' fragment = false) :
    Node.typedValue fragment = fragment := by
  rw [Node.typedValue, cutAt_eq_none_iff.mpr h]
  rfl

theorem Node.typedValue_equals (h : holds '=' key = false) :
    Node.typedValue (key ++ "=" ++ rest) = rest := by
  rw [Node.typedValue, cutAt_equals h]
  rfl

end Fragments

theorem Line.filter_snoc (words : List String) {word : String} (hne : word ≠ "") :
    (words ++ [word]).filter (· ≠ "") = words.filter (· ≠ "") ++ [word] := by
  simp [hne]

/-! ## Behind a flag -/

namespace Node

theorem FirstFlag.unique {n : Node} {word : String} {f g : Flag} (hf : n.FirstFlag word f)
    (hg : n.FirstFlag word g) : f = g := by
  rw [← findFlag_eq_some_iff] at hf hg
  exact Option.some.inj (hf.symm.trans hg)

/-- A spelling at an accepted command is read as a flag, and as one without its value. -/
theorem FirstFlag.isBare {n : Node} {word : String} {steps : List Flag.Step}
    (h : n.FirstFlag word (Flag.ofSteps steps)) (hn : n.check = .ok ()) :
    looksLikeFlag word = true ∧ holds '=' word = false := by
  obtain ⟨hmem, hspelled⟩ := findFlag_mem (findFlag_eq_some_iff.mpr h)
  have hf := Flag.looksLikeFlag_of_mem_ofSteps hspelled
  exact ⟨hf, Flag.holds_eq_of_check ((check_eq_ok_iff.mp hn).1 _ hmem) hspelled hf⟩

/-- A flag as the last word leads nowhere, be it read as a flag or as the value of another one. -/
theorem walk_snoc_flag (n : Node) (words : List String) {flag : String}
    (hf : looksLikeFlag flag = true) : n.walk (words ++ [flag]) = n.walk words := by
  rw [walk_eq_stepThrough, walk_eq_stepThrough]
  cases hread : Stand.stepThrough ⟨n, false⟩ words with
  | error e => rw [Stand.stepThrough_append_error hread]
  | ok s =>
    rw [Stand.stepThrough_snoc hread]
    obtain ⟨m, awaiting⟩ := s
    cases awaiting with
    | true => rw [Stand.step_awaiting]; rfl
    | false => rw [Stand.step_flag hf]; rfl

variable {n : Node} {flag fragment : String}

theorem all_takesValue_iff :
    (n.findFlag flag).all (·.takesValue) = true ↔
      ∀ f, n.FirstFlag flag f → f.takesValue = true := by
  rw [Option.all_eq_true]
  simp only [findFlag_eq_some_iff]

theorem offer_behind_flag (hinline : inlineValue fragment = none)
    (hf : looksLikeFlag flag = true) (hno : holds '=' flag = false)
    (hvalued : ∀ f, n.FirstFlag flag f → f.takesValue = true) :
    n.offer (some flag) fragment = .found .value (n.valueItems flag (typedValue fragment)) :=
  offer_of_value
    ((valueUnderCursor_eq_some_iff hinline).mpr ⟨rfl, hf, hno, all_takesValue_iff.mpr hvalued, rfl⟩)

theorem offer_behind_switch_kind_ne_value (hinline : inlineValue fragment = none) {f : Flag}
    (hfirst : n.FirstFlag flag f) (hswitch : f.takesValue = false) :
    (n.offer (some flag) fragment).kind ≠ .value := by
  have hstray : n.strayItems flag fragment = none := by
    rw [strayItems, findFlag_eq_some_iff.mpr hfirst]
    simp [hswitch]
  rw [n.offer_some flag hinline, hstray]
  exact n.offer_none_kind_ne_value hinline

theorem inserts_valueItems {f : Flag} {values : List String} (hfirst : n.FirstFlag flag f)
    (htakes : f.takesValue = true) (hchoices : f.choices = some values) (needle : String) :
    (n.valueItems flag needle).map (·.insert) = values.filter (startsWith · needle) := by
  rw [valueItems, findFlag_eq_some_iff.mpr hfirst]
  simp [htakes, hchoices, Function.comp_def]

end Node

namespace Tree

/-- The menu for a fragment behind a flag is that of the command that the words before the flag
lead to. -/
theorem answer_snoc_flag (t : Tree) (words : List String) {flag : String}
    (hf : looksLikeFlag flag = true) (fragment : String) :
    t.answer (words ++ [flag]) fragment =
      match t.root.walk words with
      | .error e => .unknown e.word e.parent
      | .ok n => n.offer (some flag) fragment := by
  have hsame := t.root.walk_snoc_flag words hf
  cases hwalk : t.root.walk words with
  | error e => exact answer_of_walk_error (hsame.trans hwalk) fragment
  | ok n => rw [answer_of_walk_ok (hsame.trans hwalk), List.getLast?_concat]

/-- **A value is completed alike in one word with its flag and behind it**, unless the flag is one of
the command that is known to take no value. It is alike where the words before lead nowhere, and
where they end in another flag, which takes this one for its value. -/
theorem complete_inline_eq_spaced_iff (t : Tree) (words : List String) {flag value : String}
    (hdashes : startsWith flag "--" = true) (hno : holds '=' flag = false)
    (hvalue : holds '=' value = false) :
    t.complete { tokens := t.program :: words ++ [flag ++ "=" ++ value],
                 fragment := flag ++ "=" ++ value } =
        t.complete { tokens := t.program :: words ++ [flag, value], fragment := value } ↔
      ∀ n, t.root.walk (words.filter (· ≠ "")) = .ok n →
        ∀ f, n.FirstFlag flag f → f.takesValue = true := by
  have hf := looksLikeFlag_of_startsWith_dashes hdashes
  have hspaced : Line.committed t.program
      { tokens := t.program :: words ++ [flag, value], fragment := value } =
        words.filter (· ≠ "") ++ [flag] := by
    rw [← Line.filter_snoc words (ne_empty_of_looksLikeFlag hf),
      ← Line.committed_echoed t.program (words ++ [flag]) value]
    simp
  have hinline := inlineValue_of_holds_eq_false hvalue
  rw [complete_eq_answer, complete_eq_answer, hspaced, Line.committed_echoed,
    t.answer_snoc_flag _ hf]
  cases hwalk : t.root.walk (words.filter (· ≠ "")) with
  | error e =>
    rw [answer_of_walk_error hwalk]
    exact iff_of_true rfl (by simp)
  | ok n =>
    rw [answer_of_walk_ok hwalk, n.offer_of_inline _ (inlineValue_append hdashes hno)]
    simp only [Except.ok.injEq, forall_eq']
    constructor
    · -- the first menu is one of values, the second one behind a switch is not
      intro hsame f hfirst
      rw [← Bool.not_eq_false]
      intro hswitch
      refine Node.offer_behind_switch_kind_ne_value hinline hfirst hswitch ?_
      rw [← hsame]
      rfl
    · intro hvalued
      rw [Node.offer_behind_flag hinline hf hno hvalued,
        Node.typedValue_of_holds_eq_false hvalue]

/-- Behind `init -n` the word `--network` is taken for the value of `-n`; its own value is completed
in both shapes all the same. -/
theorem sample_complete_inline_eq_spaced :
    sample.complete { tokens := ["dot", "init", "-n", "--network=te"],
                      fragment := "--network=te" } =
      sample.complete { tokens := ["dot", "init", "-n", "--network", "te"], fragment := "te" } := by
  have hvalued : ∀ n, sample.root.walk (["init", "-n"].filter (· ≠ "")) = .ok n →
      ∀ f, n.FirstFlag "--network" f → f.takesValue = true := by
    intro n hn
    obtain rfl := Except.ok.inj hn
    exact Node.all_takesValue_iff.mp rfl
  exact (@complete_inline_eq_spaced_iff sample ["init", "-n"] "--network" "te" (by decide)
    (by decide) (by decide)).mpr hvalued

/-- The menu behind a flag of the command that takes a value. -/
theorem complete_behind_flag (t : Tree) {words : List String} {n : Node} {steps : List Flag.Step}
    {flag fragment : String} (hwords : t.root.walk (words.filter (· ≠ "")) = .ok n)
    (hfirst : n.FirstFlag flag (Flag.ofSteps steps))
    (htakes : (Flag.ofSteps steps).takesValue = true) (hinline : inlineValue fragment = none)
    (hne : fragment ≠ flag) :
    t.complete { tokens := t.program :: words ++ [flag], fragment } =
      .found .value (n.valueItems flag (Node.typedValue fragment)) := by
  obtain ⟨hf, hno⟩ := hfirst.isBare ((Node.holds_of_walk hwords).check t.faultless)
  have hkept := Line.filter_snoc words (ne_empty_of_looksLikeFlag hf)
  have hlast : ((words ++ [flag]).filter (· ≠ "")).getLast? ≠ some fragment := by
    rw [hkept, List.getLast?_concat]
    simpa using hne.symm
  rw [complete_eq_answer, List.cons_append, Line.committed_bare t.program hlast, hkept,
    t.answer_snoc_flag _ hf, hwords]
  refine Node.offer_behind_flag hinline hf hno ?_
  intro f hother
  rw [hother.unique hfirst]
  exact htakes

/-- **The values offered behind a flag are its choices that begin with what is typed**, in the order
of their declaration. All of a fragment without `=` is typed, and of one with a `=` what follows the
first. -/
theorem complete_inserts_choices (t : Tree) {words : List String} {n : Node}
    {steps : List Flag.Step} {values : List String} {flag fragment : String}
    (hwords : t.root.walk (words.filter (· ≠ "")) = .ok n)
    (hfirst : n.FirstFlag flag (Flag.ofSteps steps))
    (hchoices : (Flag.ofSteps steps).choices = some values)
    (hdashes : startsWith fragment "--" = false) (hne : fragment ≠ flag) :
    let menu := t.complete { tokens := t.program :: words ++ [flag], fragment }
    menu.kind = .value ∧
      (holds '=' fragment = false → menu.inserts = values.filter (startsWith · fragment)) ∧
      ∀ key rest, fragment = key ++ "=" ++ rest → holds '=' key = false →
        menu.inserts = values.filter (startsWith · rest) := by
  intro menu
  obtain ⟨htakes, -⟩ := Flag.of_choices_ofSteps hchoices
  have hmenu : menu = .found .value (n.valueItems flag (Node.typedValue fragment)) :=
    t.complete_behind_flag hwords hfirst htakes (inlineValue_of_no_dashes hdashes) hne
  have hinserts : menu.inserts = values.filter (startsWith · (Node.typedValue fragment)) := by
    rw [hmenu]
    exact Node.inserts_valueItems hfirst htakes hchoices _
  refine ⟨by rw [hmenu]; rfl, ?_, ?_⟩
  · intro hno
    rw [hinserts, Node.typedValue_of_holds_eq_false hno]
  · rintro key rest rfl hkey
    rw [hinserts, Node.typedValue_equals hkey]

/-- Behind `init --network` the choices that begin with `te` are offered. -/
theorem sample_complete_inserts_choices :
    ∃ n steps, sample.root.walk (["init"].filter (· ≠ "")) = .ok n ∧
      n.FirstFlag "--network" (Flag.ofSteps steps) ∧
      (Flag.ofSteps steps).choices = some ["dev", "test"] ∧
      (sample.complete { tokens := ["dot", "init", "--network"], fragment := "te" }).inserts =
        ["test"] := by
  have hfirst : sample.root.children[1].FirstFlag "--network"
      (Flag.ofSteps [.long "network", .short 'n', .choices ["dev", "test"]]) :=
    ⟨[], [], rfl, by decide, by simp⟩
  obtain ⟨-, hplain, -⟩ := @complete_inserts_choices sample ["init"] sample.root.children[1]
    _ ["dev", "test"] "--network" "te" rfl hfirst rfl (by decide) (by decide)
  exact ⟨_, _, rfl, hfirst, rfl, (hplain (by decide)).trans (by decide)⟩

/-- For the fragment `x=te` the choice `test` is offered behind `init --network`, though it does not
begin with it. -/
theorem sample_offers_behind_equals :
    ∃ n steps, Stand.stepThrough ⟨sample.root, false⟩ ["init"] = .ok ⟨n, false⟩ ∧
      n.FirstFlag "--network" (Flag.ofSteps steps) ∧ (Flag.ofSteps steps).takesValue = true ∧
      (Flag.ofSteps steps).choices = some ["dev", "test"] ∧
      startsWith "x=te" "--" = false ∧ "x=te" ≠ "--network" ∧
      ["dev", "test"].filter (startsWith · "x=te") = [] ∧
      (sample.complete { tokens := ["dot", "init", "--network"], fragment := "x=te" }).inserts =
        ["test"] := by
  refine ⟨_, [.long "network", .short 'n', .choices ["dev", "test"]], rfl,
    ⟨[], [], rfl, by decide, by simp⟩, rfl, rfl, ?_, ?_, ?_, ?_⟩
  · decide
  · decide
  · decide
  · decide +kernel

end Tree

end Toolbox
