import Mathlib.Data.List.Induction
import Toolbox.Proofs.Keyed
import Toolbox.Report.Render

/-!
# What a record keeps of its steps

A command is recorded step by step, and the steps of two runs may be grouped, interleaved and
repeated in any way. Of all this the record keeps two things: the positional arguments one after the
other (`positional`), and under each key what was stored there last (`lastStored`).

One step is described by what it adds to either (`args_apply`, `get?_opts_apply`), and the steps are
then taken from the end. That two records are equal needs one thing more, that their tables have no
freedom left: the options are in key order after every step (`inOrder_apply`), so equal look-ups make
equal tables.
-/

namespace Toolbox.Report.Invocation

open Text

variable {command key : String}

/-- The positional arguments that a step adds. -/
def Step.values : Step → List String
  | .arg value => [value]
  | .args values => values
  | .opt _ _ => []
  | .optSome _ _ => []

/-- What a step stores under a key, if it stores anything there. -/
def Step.stored? (key : String) : Step → Option Json
  | .opt k value => if k = key then some value else none
  | .optSome k (some value) => if k = key then some value else none
  | .optSome _ none => none
  | .arg _ => none
  | .args _ => none

/-- The positional arguments of all steps, however they are grouped. -/
def positional (steps : List Step) : List String :=
  steps.flatMap Step.values

/-- What the last step that stores something under a key stores there. -/
def lastStored (key : String) (steps : List Step) : Option Json :=
  steps.reverse.findSome? (Step.stored? key)

/-! ## One step -/

theorem command_apply (i : Invocation) (s : Step) : (i.apply s).command = i.command := by
  cases s with
  | arg value => rfl
  | args values => rfl
  | opt k value => rfl
  | optSome k value => cases value <;> rfl

theorem args_apply (i : Invocation) (s : Step) : (i.apply s).args = i.args ++ s.values := by
  cases s with
  | arg value => rfl
  | args values => rfl
  | opt k value => exact (List.append_nil _).symm
  | optSome k value => cases value <;> exact (List.append_nil _).symm

theorem get?_opts_apply (i : Invocation) (s : Step) (key : String) :
    (i.apply s).opts.get? key = (s.stored? key).or (i.opts.get? key) := by
  have hput : ∀ k value, (i.opt k value).opts.get? key =
      (if k = key then some value else none).or (i.opts.get? key) := by
    intro k value
    rw [opt, Keyed.get?_put]
    split <;> rfl
  cases s with
  | arg value => rfl
  | args values => rfl
  | opt k value => exact hput k value
  | optSome k value =>
    cases value with
    | none => rfl
    | some value => exact hput k value

theorem inOrder_apply {i : Invocation} (h : i.opts.InOrder) (s : Step) :
    (i.apply s).opts.InOrder := by
  cases s with
  | arg value => exact h
  | args values => exact h
  | opt k value => exact h.put k value
  | optSome k value =>
    cases value with
    | none => exact h
    | some value => exact h.put k value

/-! ## All steps -/

theorem ofSteps_snoc (command : String) (steps : List Step) (s : Step) :
    ofSteps command (steps ++ [s]) = (ofSteps command steps).apply s := by
  rw [ofSteps, ofSteps, List.foldl_append, List.foldl_cons, List.foldl_nil]

@[simp] theorem command_ofSteps (command : String) (steps : List Step) :
    (ofSteps command steps).command = command := by
  induction steps using List.reverseRecOn with
  | nil => rfl
  | append_singleton steps s ih => rw [ofSteps_snoc, command_apply, ih]

theorem args_ofSteps (command : String) (steps : List Step) :
    (ofSteps command steps).args = positional steps := by
  induction steps using List.reverseRecOn with
  | nil => rfl
  | append_singleton steps s ih =>
    rw [ofSteps_snoc, args_apply, ih, positional, positional, List.flatMap_append,
      List.flatMap_cons, List.flatMap_nil, List.append_nil]

theorem lastStored_snoc (key : String) (steps : List Step) (s : Step) :
    lastStored key (steps ++ [s]) = (s.stored? key).or (lastStored key steps) := by
  rw [lastStored, List.reverse_append, List.reverse_singleton, List.singleton_append,
    List.findSome?_cons, ← lastStored]
  cases s.stored? key <;> rfl

/-- **Under each key is what was stored there last.** -/
theorem get?_opts_ofSteps (command : String) (steps : List Step) (key : String) :
    (ofSteps command steps).opts.get? key = lastStored key steps := by
  induction steps using List.reverseRecOn with
  | nil => rfl
  | append_singleton steps s ih => rw [ofSteps_snoc, get?_opts_apply, ih, lastStored_snoc]

theorem inOrder_ofSteps (command : String) (steps : List Step) :
    (ofSteps command steps).opts.InOrder := by
  induction steps using List.reverseRecOn with
  | nil => exact List.Pairwise.nil
  | append_singleton steps s ih =>
    rw [ofSteps_snoc]
    exact inOrder_apply ih s

theorem mem_opts_ofSteps_iff {steps : List Step} {value : Json} :
    (key, value) ∈ (ofSteps command steps).opts ↔ lastStored key steps = some value := by
  rw [(inOrder_ofSteps command steps).mem_iff, get?_opts_ofSteps]

theorem eq_of_parts {i j : Invocation} (hcommand : i.command = j.command) (hargs : i.args = j.args)
    (hopts : i.opts = j.opts) : i = j := by
  cases i
  cases j
  simp only at hcommand hargs hopts
  rw [hcommand, hargs, hopts]

/-- **What two runs must have in common to leave one record**, and all they need to. -/
theorem ofSteps_eq_iff {a b : List Step} :
    ofSteps command a = ofSteps command b ↔
      positional a = positional b ∧ ∀ key, lastStored key a = lastStored key b := by
  constructor
  · intro h
    refine ⟨?_, ?_⟩
    · rw [← args_ofSteps command a, ← args_ofSteps command b, h]
    · intro key
      rw [← get?_opts_ofSteps command a, ← get?_opts_ofSteps command b, h]
  · rintro ⟨hargs, hopts⟩
    rw [← args_ofSteps command a, ← args_ofSteps command b] at hargs
    have htable : (ofSteps command a).opts = (ofSteps command b).opts := by
      refine (inOrder_ofSteps command a).ext (inOrder_ofSteps command b) ?_
      intro key
      rw [get?_opts_ofSteps, get?_opts_ofSteps, hopts key]
    refine eq_of_parts ?_ hargs htable
    rw [command_ofSteps, command_ofSteps]

/-- **The order of recording does not matter.** Steps that add the same positional arguments in the
same order, and leave the same value under each key, make one record. It lists each key that anything
was stored under once, with the last value, in the order of the keys' octets, and it is written alike
in every mode. -/
theorem ofSteps_eq_of_same_record {a b : List Step} (hargs : positional a = positional b)
    (hopts : ∀ key, lastStored key a = lastStored key b) :
    ofSteps command a = ofSteps command b ∧
      (ofSteps command a).args = positional a ∧
      (∀ key value, (key, value) ∈ (ofSteps command a).opts ↔ lastStored key a = some value) ∧
      ((ofSteps command a).opts.map fun o => octets o.1).Pairwise (· < ·) ∧
      ∀ mode, (ofSteps command a).render mode = (ofSteps command b).render mode := by
  have hsame : ofSteps command a = ofSteps command b := ofSteps_eq_iff.mpr ⟨hargs, hopts⟩
  refine ⟨hsame, args_ofSteps command a, ?_, ?_, ?_⟩
  · intro key value
    exact mem_opts_ofSteps_iff
  · exact (inOrder_ofSteps command a).pairwise_octets
  · intro mode
    rw [hsame]

/-- Steps in which values are stored over and a value is not there. -/
def sampleSteps : List Step :=
  [.opt "b" (.int 1), .arg "x", .optSome "é" (some (.str "v")), .optSome "b" none,
    .args ["y", "z"], .opt "b" .null]

/-- Steps that leave the same record, in another order and with the arguments grouped otherwise. -/
def regroupedSteps : List Step :=
  [.args ["x", "y"], .opt "é" (.bool true), .opt "b" .null, .arg "z", .opt "é" (.str "v"), .args []]

theorem lastStored_sampleSteps (key : String) :
    lastStored key sampleSteps = lastStored key regroupedSteps := by
  by_cases hb : "b" = key
  · subst hb
    rfl
  · by_cases he : "é" = key
    · subst he
      rfl
    · simp [sampleSteps, regroupedSteps, lastStored, List.findSome?_cons, Step.stored?, hb, he]

theorem sample_ofSteps_eq_of_same_record :
    positional sampleSteps = positional regroupedSteps ∧
      (∀ key, lastStored key sampleSteps = lastStored key regroupedSteps) ∧
      ofSteps "init" sampleSteps = ofSteps "init" regroupedSteps ∧
      ∀ mode, (ofSteps "init" sampleSteps).render mode =
        (ofSteps "init" regroupedSteps).render mode := by
  have hargs : positional sampleSteps = positional regroupedSteps := rfl
  obtain ⟨hsame, -, -, -, hrender⟩ := ofSteps_eq_of_same_record hargs lastStored_sampleSteps
  exact ⟨hargs, lastStored_sampleSteps, hsame, hrender⟩

end Toolbox.Report.Invocation
