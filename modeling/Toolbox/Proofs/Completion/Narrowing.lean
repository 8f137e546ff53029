import Mathlib.Data.List.Flatten
import Toolbox.Proofs.Completion.TypedValues

/-!
# Typing on

Every candidate comes out of a row of declarations, values or flags or children, by one test: that
some text begins with the fragment. A longer fragment leaves fewer texts that do, and leaves those
in their order. So typing on takes candidates away and brings none, as long as the kind of the menu
stays what it was.

The kind may change in three ways. A word that was completed may become one that nothing is called
by, and then nothing is left (`Node.offer_none_sublist`). The two others bring new candidates and
are the exceptions of `Tree.complete_narrows`: a dash behind nothing turns the menu of subcommands
into one of flags, and a `=` begins a value. A fragment that is refused stays refused even then
(`Node.offer_kind_stays_invalid`).
-/

namespace Toolbox

open Text

theorem Text.filter_startsWith_sublist (texts : List String) (start more : String) :
    (texts.filter (startsWith · (start ++ more))).Sublist (texts.filter (startsWith · start)) := by
  apply List.monotone_filter_right
  intro text h
  exact startsWith_trans h (startsWith_append start more)

namespace Node

variable (n : Node) (fragment more : String)

theorem hasNameStarting_of_append {n : Node} {fragment more : String}
    (h : n.hasNameStarting (fragment ++ more) = true) : n.hasNameStarting fragment = true := by
  obtain ⟨rest, hname⟩ := hasNameStarting_iff.mp h
  rw [String.append_assoc] at hname
  exact hasNameStarting_iff.mpr ⟨more ++ rest, hname⟩

/-! ## The three rows of candidates -/

theorem valueItems_sublist (flag : String) :
    (n.valueItems flag (fragment ++ more)).Sublist (n.valueItems flag fragment) := by
  cases hflag : n.findFlag flag with
  | none => simp [valueItems, hflag]
  | some f =>
    cases htakes : f.takesValue with
    | false => simp [valueItems, hflag, htakes]
    | true =>
      simp only [valueItems, hflag, htakes]
      exact (filter_startsWith_sublist (f.choices.getD []) fragment more).map _

theorem flagItems_sublist : (n.flagItems (fragment ++ more)).Sublist (n.flagItems fragment) := by
  apply List.Sublist.flatMap_right
  intro f _
  exact (filter_startsWith_sublist f.spellings fragment more).map _

theorem childItems_sublist : (n.childItems (fragment ++ more)).Sublist (n.childItems fragment) := by
  apply List.Sublist.map
  apply List.monotone_filter_right
  intro c h
  rw [Bool.and_eq_true] at h ⊢
  exact ⟨h.1, hasNameStarting_of_append h.2⟩

/-! ## The menus -/

/-- Where no word before the cursor asks for a value. -/
theorem offer_none_sublist {n : Node} {fragment more : String}
    (hno : holds '=' (fragment ++ more) = false)
    (hstart : fragment = "" → looksLikeFlag more = false) :
    (n.offer none (fragment ++ more)).items.Sublist (n.offer none fragment).items := by
  rw [holds_append, Bool.or_eq_false_iff] at hno
  have hv : n.valueUnderCursor none fragment = none :=
    valueUnderCursor_none (inlineValue_of_holds_eq_false hno.1)
  rcases n.offer_forms none (fragment ++ more) with
    ⟨flag, needle, hv', -⟩ | ⟨-, hf', hmenu⟩ | ⟨-, hf', hsome, hmenu⟩ | ⟨-, -, -, -, hmenu⟩
  · -- a fragment without `=` is no value on its own
    rw [valueUnderCursor_none (inlineValue_of_holds_eq_false (by simp [holds_append, hno]))] at hv'
    cases hv'
  · -- a flag being typed was one before, for the dash stands at the beginning
    have hne : fragment ≠ "" := by
      rintro rfl
      rw [String.empty_append, hstart rfl] at hf'
      cases hf'
    rw [looksLikeFlag_append hne] at hf'
    rw [hmenu, offer_of_flag hv hf']
    exact n.flagItems_sublist fragment more
  · have hf : looksLikeFlag fragment = false := by
      rw [← Bool.not_eq_true]
      intro hf
      rw [looksLikeFlag, startsWith_trans (startsWith_append fragment more) hf] at hf'
      cases hf'
    have hshorter : fragment = "" ∨ n.children.any (·.hasNameStarting fragment) = true := by
      rcases hsome with hempty | ⟨c, hc, hname⟩
      · exact .inl (String.append_eq_empty_iff.mp hempty).1
      · exact .inr (List.any_eq_true.mpr ⟨c, hc, hasNameStarting_of_append hname⟩)
    rw [hmenu, offer_of_name hv hf hshorter]
    exact n.childItems_sublist fragment more
  · rw [hmenu]
    exact List.nil_sublist _

theorem offer_sublist {n : Node} {fragment more : String} (previous : Option String)
    (hno : holds '=' (fragment ++ more) = false)
    (hstart : fragment = "" → looksLikeFlag more = false) :
    (n.offer previous (fragment ++ more)).items.Sublist (n.offer previous fragment).items := by
  have hrest := offer_none_sublist (n := n) hno hstart
  cases previous with
  | none => exact hrest
  | some word =>
    have hshort := hno
    rw [holds_append, Bool.or_eq_false_iff] at hshort
    rw [n.offer_some word (inlineValue_of_holds_eq_false hno),
      n.offer_some word (inlineValue_of_holds_eq_false hshort.1), strayItems, strayItems,
      typedValue_of_holds_eq_false hno, typedValue_of_holds_eq_false hshort.1]
    -- whether the word asks for a value does not depend on the fragment
    split
    · exact n.valueItems_sublist fragment more word
    · exact hrest

/-- **A fragment that is refused stays refused**, whatever is typed on. -/
theorem offer_kind_stays_invalid {n : Node} {previous : Option String} {fragment : String}
    (h : (n.offer previous fragment).kind = .invalid) (more : String) :
    (n.offer previous (fragment ++ more)).kind = .invalid := by
  obtain ⟨hv, hf, hne, hnames⟩ := offer_kind_eq_invalid_iff.mp h
  have hlook : looksLikeFlag (fragment ++ more) = false := by rw [looksLikeFlag_append hne, hf]
  refine offer_kind_eq_invalid_iff.mpr ⟨?_, hlook, by simp [hne], ?_⟩
  · -- neither fragment begins with two dashes, so the word before decides for both
    cases hv' : n.valueUnderCursor previous (fragment ++ more) with
    | none => rfl
    | some request =>
      obtain ⟨hp, hflag, hno, hall, -⟩ :=
        (valueUnderCursor_eq_some_iff (inlineValue_of_plain hlook)).mp hv'
      rw [(valueUnderCursor_eq_some_iff (inlineValue_of_plain hf)).mpr
        ⟨hp, hflag, hno, hall, rfl⟩] at hv
      cases hv
  · intro c hc rest
    rw [String.append_assoc]
    exact hnames c hc (more ++ rest)

end Node

namespace Tree

/-- **Typing on only narrows the menu.** What is offered for a longer fragment is what was offered
for the shorter one with some candidates left out, unless a dash begins the word or a `=` begins a
value; and no fragment that is refused is ever made good. -/
theorem complete_narrows (t : Tree) (words : List String) (fragment more : String) :
    let shorter := t.complete { tokens := t.program :: words ++ [fragment], fragment }
    let longer := t.complete
      { tokens := t.program :: words ++ [fragment ++ more], fragment := fragment ++ more }
    (holds '=' (fragment ++ more) = false → (fragment = "" → looksLikeFlag more = false) →
      longer.items.Sublist shorter.items) ∧
    (shorter.kind = .invalid → longer.kind = .invalid) := by
  intro shorter longer
  have hshorter : shorter = t.answer (words.filter (· ≠ "")) fragment := by
    rw [← Line.committed_echoed t.program words fragment]
    exact t.complete_eq_answer _
  have hlonger : longer = t.answer (words.filter (· ≠ "")) (fragment ++ more) := by
    rw [← Line.committed_echoed t.program words (fragment ++ more)]
    exact t.complete_eq_answer _
  rw [hshorter, hlonger]
  cases hwalk : t.root.walk (words.filter (· ≠ "")) with
  | error e =>
    -- the words are refused before the fragment is looked at
    rw [answer_of_walk_error hwalk, answer_of_walk_error hwalk]
    exact ⟨fun _ _ => List.Sublist.refl _, id⟩
  | ok n =>
    rw [answer_of_walk_ok hwalk, answer_of_walk_ok hwalk]
    exact ⟨fun hno hstart => Node.offer_sublist _ hno hstart,
      fun h => Node.offer_kind_stays_invalid h more⟩

/-- Behind a switch `l` is typed on to `ls`, an alias, and the menu stays as it is; `x` is typed on
to `x=-`, and stays refused. -/
theorem sample_complete_narrows :
    (sample.complete { tokens := ["dot", "--json", "ls"], fragment := "ls" }).items.Sublist
        (sample.complete { tokens := ["dot", "--json", "l"], fragment := "l" }).items ∧
      (sample.complete { tokens := ["dot", "--json", "ls"], fragment := "ls" }).inserts =
        ["list"] ∧
      (sample.complete { tokens := ["dot", "x=-"], fragment := "x=-" }).kind = .invalid := by
  have hplain : "l" = "" → looksLikeFlag "s" = false := fun _ => rfl
  have hx : (sample.complete { tokens := ["dot", "x"], fragment := "x" }).kind = .invalid := by
    decide +kernel
  refine ⟨(sample.complete_narrows ["--json"] "l" "s").1 (by decide) hplain, ?_, ?_⟩
  · decide +kernel
  · exact (sample.complete_narrows [] "x" "=-").2 hx

end Tree

end Toolbox
