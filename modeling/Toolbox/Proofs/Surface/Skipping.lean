import Mathlib.Data.Fintype.EquivFin
import Toolbox.Proofs.Completion.Extension
import Toolbox.Proofs.Completion.Values
import Toolbox.Proofs.Surface.Mirror

/-!
# Declared values are skipped

On a command line a declared option and its value say nothing about the command that is called. In
the tree of the declaration that holds for the options that are offered, and for no others: a hidden
option leaves no flag behind, so the walk passes over its spelling alone and takes its value for the
name of a subcommand.

`Command.complete_past_value_iff` says both. The value of an option is skipped, whatever it is,
exactly when the option is not hidden; and behind a hidden option a line is answered as if the option
were not there. `Command.sampleFetch_value_is_unknown` is a line on which that ends in an error.

Hidden *subcommands* fare better: they stay in the tree and can be called (`Mirrors.findChild`).
-/

namespace Toolbox

/-- No list holds all the words that look like names. -/
theorem exists_plain_notMem (names : List String) :
    ∃ word, word ≠ "" ∧ looksLikeFlag word = false ∧ word ∉ names := by
  obtain ⟨back, hback⟩ := Infinite.exists_notMem_finset
    (names.map fun name => String.ofList (name.toList.drop 1)).toFinset
  have hx : "x" ≠ "" := by decide
  refine ⟨"x" ++ back, by simp, ?_, ?_⟩
  · rw [looksLikeFlag_append hx]
    rfl
  · intro hm
    refine hback (List.mem_toFinset.mpr (List.mem_map.mpr ⟨_, hm, ?_⟩))
    have hletter : "x".toList = ['x'] := rfl
    rw [String.toList_append, hletter, List.singleton_append, List.drop_succ_cons, List.drop_zero,
      String.ofList_toList]

/-- A flag that no value follows leaves no trace once another word stands behind it. -/
theorem Tree.answer_past_flag {t : Tree} {words : List String} {n : Node}
    (hwords : Stand.stepThrough ⟨t.root, false⟩ words = .ok ⟨n, false⟩) {flag : String}
    (hf : looksLikeFlag flag = true) (hawaits : n.awaitsValue flag = false)
    (word fragment : String) :
    t.answer (words ++ [flag, word]) fragment = t.answer (words ++ [word]) fragment := by
  have hread : Stand.stepThrough ⟨t.root, false⟩ (words ++ [flag, word]) =
      Stand.stepThrough ⟨t.root, false⟩ (words ++ [word]) := by
    rw [Stand.stepThrough_append, Stand.stepThrough_append, hwords]
    simp only [Stand.stepThrough, Stand.step_flag hf, hawaits]
  have hlast : (words ++ [flag, word]).getLast? = (words ++ [word]).getLast? := by
    simp [List.getLast?_append]
  rw [answer, answer, Node.walk_eq_stepThrough, Node.walk_eq_stepThrough, hread, hlast]

namespace Surface

theorem Parameter.isPositional_eq_false {p : Parameter} {s : String} (h : s ∈ p.spellings) :
    p.isPositional = false := by
  rw [spellings] at h
  rw [isPositional]
  cases hlong : p.long with
  | some name => rfl
  | none =>
    cases hshort : p.short with
    | some c => rfl
    | none => simp [hlong, hshort] at h

namespace Mirrors

variable {n : Node} {c : Command} {p : Parameter} {spelling : String}

theorem findFlag_of_hidden (h : Mirrors n c)
    (hsole : ∀ q ∈ c.parameters, spelling ∈ q.spellings → q = p) (hidden : p.hidden = true) :
    n.findFlag spelling = none := by
  rw [Node.findFlag_eq_none_iff]
  intro f hf hspelled
  rw [h.flags] at hf
  obtain ⟨q, hq, rfl⟩ := List.mem_map.mp hf
  rw [q.spellings_toFlag] at hspelled
  obtain ⟨hdeclared, hoffered⟩ := List.mem_filter.mp hq
  rw [hsole q hdeclared hspelled, hidden] at hoffered
  simp at hoffered

theorem findFlag_of_shown (h : Mirrors n c) (hp : p ∈ c.parameters)
    (hspelled : spelling ∈ p.spellings)
    (hsole : ∀ q ∈ c.parameters, spelling ∈ q.spellings → q = p) (shown : p.hidden = false) :
    n.findFlag spelling = some p.toFlag := by
  cases hfind : n.findFlag spelling with
  | none =>
    have hoffered : p ∈ c.offeredOptions :=
      List.mem_filter.mpr ⟨hp, by simp [Parameter.isPositional_eq_false hspelled, shown]⟩
    have hflag : p.toFlag ∈ n.flags := by
      rw [h.flags]
      exact List.mem_map_of_mem hoffered
    rw [← p.spellings_toFlag] at hspelled
    exact absurd hspelled (Node.findFlag_eq_none_iff.mp hfind _ hflag)
  | some f =>
    obtain ⟨hf, hmem⟩ := Node.findFlag_mem hfind
    rw [h.flags] at hf
    obtain ⟨q, hq, rfl⟩ := List.mem_map.mp hf
    rw [q.spellings_toFlag] at hmem
    rw [hsole q (List.mem_filter.mp hq).1 hmem]

/-- The walk waits for the value of an option exactly when the option is not hidden. -/
theorem awaitsValue_eq (h : Mirrors n c) (hn : n.check = .ok ()) (hp : p ∈ c.parameters)
    (htakes : p.takesValues = true) (hspelled : spelling ∈ p.spellings)
    (hsole : ∀ q ∈ c.parameters, spelling ∈ q.spellings → q = p) :
    n.awaitsValue spelling = !p.hidden := by
  rw [Node.awaitsValue]
  cases hidden : p.hidden with
  | true => simp [h.findFlag_of_hidden hsole hidden]
  | false =>
    have hfind := h.findFlag_of_shown hp hspelled hsole hidden
    obtain ⟨hmem, hword⟩ := Node.findFlag_mem hfind
    have hno := Flag.holds_eq_of_check ((Node.check_eq_ok_iff.mp hn).1 _ hmem) hword
      (Parameter.looksLikeFlag_of_mem_spellings hspelled)
    simp [hfind, hno, p.takesValue_toFlag, htakes]

end Mirrors

namespace Command

section Skipping

variable {c d : Command} {t : Tree} {words : List String} {p : Parameter} {spelling value : String}

theorem ne_empty_past_value (hcalls : c.Calls words d) (hspelled : spelling ∈ p.spellings)
    (hvalue : value ≠ "") : ∀ word ∈ words ++ [spelling, value], word ≠ "" := by
  have hspelling := ne_empty_of_looksLikeFlag (Parameter.looksLikeFlag_of_mem_spellings hspelled)
  exact List.forall_mem_append.mpr ⟨hcalls.ne_empty, by simp [hspelling, hvalue]⟩

theorem ne_empty_snoc (hcalls : c.Calls words d) (hvalue : value ≠ "") :
    ∀ word ∈ words ++ [value], word ≠ "" :=
  List.forall_mem_append.mpr ⟨hcalls.ne_empty, List.forall_mem_singleton.mpr hvalue⟩

/-- The value of an option that is offered is skipped together with it. -/
theorem complete_past_shown (h : c.tree = .ok t) (hcalls : c.Calls words d)
    (hp : p ∈ d.parameters) (htakes : p.takesValues = true) (hspelled : spelling ∈ p.spellings)
    (hsole : ∀ q ∈ d.parameters, spelling ∈ q.spellings → q = p) (shown : p.hidden = false)
    (hvalue : value ≠ "") (hplain : looksLikeFlag value = false) :
    t.complete { tokens := c.name :: (words ++ [spelling, value]), fragment := "" } =
      t.complete { tokens := c.name :: words, fragment := "" } := by
  obtain ⟨m, hread, hm⟩ := exists_mirrors h hcalls
  have hcheck := (Stand.holds_of_stepThrough hread).check t.faultless
  have hf := Parameter.looksLikeFlag_of_mem_spellings hspelled
  have hawaits : m.awaitsValue spelling = true := by
    rw [hm.awaitsValue_eq hcheck hp htakes hspelled hsole, shown]
    rfl
  have hlast : ∀ word, some value = some word → looksLikeFlag word = false := by
    intro word hword
    obtain rfl := Option.some.inj hword
    exact hplain
  have hanswer := Tree.answer_past_value hread hf hawaits value "" []
  rw [List.append_nil] at hanswer
  rw [complete_blank h hcalls, ← program_of_tree h,
    t.complete_committed (ne_empty_past_value hcalls hspelled hvalue), hanswer]
  exact hm.offer_blank hlast

/-- An option that is hidden is passed over, and what was its value is read in its place. -/
theorem complete_past_hidden (h : c.tree = .ok t) (hcalls : c.Calls words d)
    (hp : p ∈ d.parameters) (htakes : p.takesValues = true) (hspelled : spelling ∈ p.spellings)
    (hsole : ∀ q ∈ d.parameters, spelling ∈ q.spellings → q = p) (hidden : p.hidden = true)
    (hvalue : value ≠ "") :
    t.complete { tokens := c.name :: (words ++ [spelling, value]), fragment := "" } =
      t.complete { tokens := c.name :: (words ++ [value]), fragment := "" } := by
  obtain ⟨m, hread, hm⟩ := exists_mirrors h hcalls
  have hcheck := (Stand.holds_of_stepThrough hread).check t.faultless
  have hf := Parameter.looksLikeFlag_of_mem_spellings hspelled
  have hawaits : m.awaitsValue spelling = false := by
    rw [hm.awaitsValue_eq hcheck hp htakes hspelled hsole, hidden]
    rfl
  rw [← program_of_tree h, t.complete_committed (ne_empty_past_value hcalls hspelled hvalue),
    t.complete_committed (ne_empty_snoc hcalls hvalue), Tree.answer_past_flag hread hf hawaits]

/-- Behind a chain of subcommands there is always a word that calls nothing. -/
theorem exists_unknown_word (h : c.tree = .ok t) (hcalls : c.Calls words d) :
    ∃ word, word ≠ "" ∧ looksLikeFlag word = false ∧
      (t.complete { tokens := c.name :: (words ++ [word]), fragment := "" }).kind = .invalid := by
  obtain ⟨m, hread, -⟩ := exists_mirrors h hcalls
  obtain ⟨word, hne, hplain, hfresh⟩ := exists_plain_notMem (m.children.flatMap Node.names)
  refine ⟨word, hne, hplain, ?_⟩
  rw [← program_of_tree h, t.complete_committed (ne_empty_snoc hcalls hne),
    Tree.answer_snoc_kind_eq_invalid_iff hread hplain, Node.findChild_eq_none_iff]
  intro s hs hname
  exact hfresh (List.mem_flatMap.mpr ⟨s, hs, hname⟩)

/-- **The value of a declared option is skipped, whatever it is, exactly when the option is not
hidden**, and then completion goes on among the subcommands. A hidden option is passed over without
its value, so that the value is read as a subcommand. -/
theorem complete_past_value_iff (h : c.tree = .ok t) (hcalls : c.Calls words d)
    (hp : p ∈ d.parameters) (htakes : p.takesValues = true) (hspelled : spelling ∈ p.spellings)
    (hsole : ∀ q ∈ d.parameters, spelling ∈ q.spellings → q = p) :
    (p.hidden = false ↔ ∀ value, value ≠ "" → looksLikeFlag value = false →
      t.complete { tokens := c.name :: (words ++ [spelling, value]), fragment := "" } =
        t.complete { tokens := c.name :: words, fragment := "" }) ∧
    (p.hidden = true → ∀ value, value ≠ "" →
      t.complete { tokens := c.name :: (words ++ [spelling, value]), fragment := "" } =
        t.complete { tokens := c.name :: (words ++ [value]), fragment := "" }) ∧
    (t.complete { tokens := c.name :: words, fragment := "" }).kind = .subcommand := by
  have hkind : (t.complete { tokens := c.name :: words, fragment := "" }).kind = .subcommand := by
    rw [complete_blank h hcalls]
    rfl
  refine ⟨⟨?_, ?_⟩, ?_, hkind⟩
  · intro shown value hvalue hplain
    exact complete_past_shown h hcalls hp htakes hspelled hsole shown hvalue hplain
  · intro hskipped
    rw [← Bool.not_eq_true]
    intro hidden
    -- a hidden option would let through a word that calls nothing, and that is refused
    obtain ⟨value, hvalue, hplain, hinvalid⟩ := exists_unknown_word h hcalls
    rw [← complete_past_hidden h hcalls hp htakes hspelled hsole hidden hvalue,
      hskipped value hvalue hplain, hkind] at hinvalid
    cases hinvalid
  · intro hidden value hvalue
    exact complete_past_hidden h hcalls hp htakes hspelled hsole hidden hvalue

end Skipping

/-- A command with an option that is shown and one that is hidden. -/
def sampleFetch : Command :=
  { name := "fetch"
    parameters := [
      { id := "mirror", long := some "mirror", short := some 'm' },
      { id := "token", long := some "token", hidden := true }]
    subcommands := [{ name := "binary" }] }

def sampleTool : Command :=
  { name := "dot", subcommands := [sampleFetch] }

theorem sampleTool_tree :
    sampleTool.tree = .ok ⟨withMarker sampleTool.outline, by decide +kernel⟩ :=
  Tree.ofRoot_of_check _

theorem sampleTool_calls : sampleTool.Calls ["fetch"] sampleFetch :=
  .call List.mem_cons_self List.mem_cons_self (by decide) rfl .here

/-- Behind `fetch --mirror eu` the menu is the one behind `fetch`. -/
theorem sampleFetch_complete_past_value :
    ∃ t, sampleTool.tree = .ok t ∧ sampleTool.Calls ["fetch"] sampleFetch ∧
      t.complete { tokens := ["dot", "fetch", "--mirror", "eu"], fragment := "" } =
        t.complete { tokens := ["dot", "fetch"], fragment := "" } := by
  have hspelled : "--mirror" ∈ sampleFetch.parameters[0].spellings := .tail _ (.head _)
  have hsole : ∀ q ∈ sampleFetch.parameters, "--mirror" ∈ q.spellings →
      q = sampleFetch.parameters[0] := by
    decide +kernel
  have hskipped := complete_past_value_iff sampleTool_tree sampleTool_calls (.head _) rfl hspelled
    hsole
  exact ⟨_, sampleTool_tree, sampleTool_calls, hskipped.1.mp rfl "eu" (by decide) rfl⟩

/-- Behind `fetch --token abc` the value of the hidden option is refused as a subcommand. -/
theorem sampleFetch_value_is_unknown :
    ∃ t p, sampleTool.tree = .ok t ∧ sampleTool.Calls ["fetch"] sampleFetch ∧
      p ∈ sampleFetch.parameters ∧ p.isPositional = false ∧ p.takesValues = true ∧
      "--token" ∈ p.spellings ∧
      (∀ q ∈ sampleFetch.parameters, "--token" ∈ q.spellings → q = p) ∧
      t.complete { tokens := ["dot", "fetch"], fragment := "" } =
        .found .subcommand [{ insert := "binary" }] ∧
      t.complete { tokens := ["dot", "fetch", "--token", "abc"], fragment := "" } =
        .unknown "abc" "fetch" := by
  refine ⟨_, sampleFetch.parameters[1], sampleTool_tree, sampleTool_calls, .tail _ (.head _), rfl,
    rfl, .head _, ?_, ?_, ?_⟩
  · decide +kernel
  · decide +kernel
  · decide +kernel

end Command

end Surface

end Toolbox
