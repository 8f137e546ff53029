import Mathlib.Data.List.Basic
import Mathlib.Data.List.Induction
import Mathlib.Data.List.Sort
import Mathlib.Data.List.TakeWhile
import Toolbox.Completion.Walk
import Toolbox.Proofs.Text.Affix

/-!
# What a flag keeps of its steps

A flag is put together step by step, in any order, and a step may be taken again with something else
to say. A field is written by one sort of step and left alone by the others, so one argument serves
the fields: each is what the last step of its sort wrote (`field_ofSteps`). The exception is whether
a value follows, which two sorts of steps write and none takes back.

What a step writes is not what it was given. The name of a long spelling loses its dashes, and the
choices lose their repetitions. Both are computed, by dropping characters and by a filter that
remembers what it has seen, and `fields_ofSteps_iff` is not to repeat the computation. So each result
is described by a relation to what was given, `Undashes` and `FirstsOf`, and each relation is shown
to have one solution, the computed one (`undashes_iff`, `firstsOf_iff`).

A walk relies on this: a spelling always looks like a flag, and a flag with choices always has a
value after it.
-/

namespace Toolbox

open Text

theorem looksLikeFlag_iff {s : String} :
    looksLikeFlag s = true ↔ s.toList.head? = some '-' := by
  have hdash : "-".toList = ['-'] := by decide
  rw [looksLikeFlag, startsWith_iff, hdash, List.head?_eq_some_iff]
  rfl

/-! ## Without the dashes in front -/

/-- The name is the text behind some number of dashes, and the text begins with none. -/
def Undashes (name text : String) : Prop :=
  (∃ n, name = String.ofList (List.replicate n '-') ++ text) ∧ looksLikeFlag text = false

theorem undashes_dropDashes (name : String) : Undashes name (dropDashes name) := by
  have hfront : name.toList.takeWhile (· = '-') =
      List.replicate (name.toList.takeWhile (· = '-')).length '-' := by
    refine List.eq_replicate_of_mem ?_
    intro c hc
    simpa using List.mem_takeWhile_imp hc
  refine ⟨⟨(name.toList.takeWhile (· = '-')).length, ?_⟩, ?_⟩
  · rw [← hfront, dropDashes, ← String.ofList_append, List.takeWhile_append_dropWhile,
      String.ofList_toList]
  · rw [← Bool.not_eq_true, looksLikeFlag_iff, dropDashes, String.toList_ofList]
    intro hhead
    have hno := List.head?_dropWhile_not (· = '-') name.toList
    rw [hhead] at hno
    simp at hno

/-- Dropping the dashes is the one way to be without them. -/
theorem undashes_iff {name text : String} : Undashes name text ↔ text = dropDashes name := by
  constructor
  · rintro ⟨⟨n, rfl⟩, hplain⟩
    have hdashes : ∀ c ∈ List.replicate n '-', decide (c = '-') = true := by
      intro c hc
      simpa using (List.mem_replicate.mp hc).2
    have hkept : text.toList.dropWhile (· = '-') = text.toList := by
      rw [← Bool.not_eq_true, looksLikeFlag_iff] at hplain
      cases hcs : text.toList with
      | nil => rfl
      | cons c cs =>
        rw [hcs] at hplain
        exact List.dropWhile_cons_of_neg (by simpa using hplain)
    rw [dropDashes, String.toList_append, String.toList_ofList,
      List.dropWhile_append_of_pos hdashes, hkept, String.ofList_toList]
  · rintro rfl
    exact undashes_dropDashes name

/-! ## First occurrences -/

/-- The values are those given, once each and in the order in which they first occur. -/
structure FirstsOf (given values : List String) : Prop where
  mem_iff : ∀ v, v ∈ values ↔ v ∈ given
  inOrder : values.Pairwise fun v w => given.idxOf v < given.idxOf w

theorem FirstsOf.nodup {given values : List String} (h : FirstsOf given values) : values.Nodup := by
  refine h.inOrder.imp ?_
  rintro v w hlt rfl
  exact Nat.lt_irrefl _ hlt

theorem FirstsOf.unique {given a b : List String} (ha : FirstsOf given a) (hb : FirstsOf given b) :
    a = b := by
  have hirrefl : Std.Irrefl fun v w => given.idxOf v < given.idxOf w := ⟨fun _ => Nat.lt_irrefl _⟩
  have hantisymm : Std.Antisymm fun v w => given.idxOf v < given.idxOf w :=
    ⟨fun _ _ hvw hwv => absurd hwv (Nat.lt_asymm hvw)⟩
  refine List.Pairwise.eq_of_mem_iff ha.inOrder hb.inOrder ?_
  intro v
  rw [ha.mem_iff, hb.mem_iff]

theorem eraseDups_snoc (values : List String) (v : String) :
    (values ++ [v]).eraseDups =
      if v ∈ values then values.eraseDups else values.eraseDups ++ [v] := by
  rw [List.eraseDups_append]
  split
  case isTrue hseen => simp [List.removeAll, hseen]
  case isFalse hnew => simp [List.removeAll, hnew, List.eraseDups_cons]

theorem firstsOf_eraseDups (given : List String) : FirstsOf given given.eraseDups := by
  refine ⟨fun _ => List.mem_eraseDups, ?_⟩
  induction given using List.reverseRecOn with
  | nil => exact List.Pairwise.nil
  | append_singleton given v ih =>
    -- what is there already keeps its place when one more is given
    have hkept : given.eraseDups.Pairwise fun w u =>
        (given ++ [v]).idxOf w < (given ++ [v]).idxOf u := by
      refine ih.imp_of_mem ?_
      intro w u hw hu hlt
      rw [List.idxOf_append_of_mem (List.mem_eraseDups.mp hw),
        List.idxOf_append_of_mem (List.mem_eraseDups.mp hu)]
      exact hlt
    rw [eraseDups_snoc]
    split
    case isTrue => exact hkept
    case isFalse hnew =>
      refine List.pairwise_append.mpr ⟨hkept, List.pairwise_singleton _ _, ?_⟩
      intro w hw u hu
      obtain rfl := List.mem_singleton.mp hu
      have hplace := List.idxOf_lt_length_of_mem (List.mem_eraseDups.mp hw)
      rw [List.idxOf_append_of_mem (List.mem_eraseDups.mp hw), List.idxOf_append_of_notMem hnew]
      omega

theorem firstsOf_iff {given values : List String} :
    FirstsOf given values ↔ values = given.eraseDups := by
  constructor
  · intro h
    exact h.unique (firstsOf_eraseDups given)
  · rintro rfl
    exact firstsOf_eraseDups given

theorem nodup_eraseDups (values : List String) : values.eraseDups.Nodup :=
  (firstsOf_eraseDups values).nodup

namespace Flag

theorem looksLikeFlag_short (c : Char) : looksLikeFlag (String.ofList ['-', c]) = true := by
  rw [looksLikeFlag_iff, String.toList_ofList, List.head?_cons]

theorem looksLikeFlag_long (name : String) : looksLikeFlag ("--" ++ name) = true := by
  have hdashes : looksLikeFlag "--" = true := by decide
  exact startsWith_trans (startsWith_append "--" name) hdashes

theorem mem_spellings_iff {f : Flag} {s : String} :
    s ∈ f.spellings ↔ f.short = some s ∨ f.long = some s := by
  simp [spellings, Option.mem_toList]

theorem isSpelled_iff {f : Flag} {s : String} :
    f.isSpelled s = true ↔ f.short = some s ∨ f.long = some s := by
  rw [isSpelled, List.contains_iff_mem, mem_spellings_iff]

/-! ## One step -/

def Step.name? : Step → Option String
  | .long name => some name
  | .short _ | .takesValue | .choices _ | .help _ => none

def Step.letter? : Step → Option Char
  | .short c => some c
  | .long _ | .takesValue | .choices _ | .help _ => none

def Step.values? : Step → Option (List String)
  | .choices values => some values
  | .long _ | .short _ | .takesValue | .help _ => none

def Step.text? : Step → Option String
  | .help text => some text
  | .long _ | .short _ | .takesValue | .choices _ => none

theorem long_apply (f : Flag) (step : Step) :
    (f.apply step).long = (step.name?.map fun name => "--" ++ dropDashes name).or f.long := by
  cases step <;> rfl

theorem short_apply (f : Flag) (step : Step) :
    (f.apply step).short = (step.letter?.map fun c => String.ofList ['-', c]).or f.short := by
  cases step <;> rfl

theorem choices_apply (f : Flag) (step : Step) :
    (f.apply step).choices = (step.values?.map List.eraseDups).or f.choices := by
  cases step <;> rfl

theorem help_apply (f : Flag) (step : Step) :
    (f.apply step).help = (step.text?.map id).or f.help := by
  cases step <;> rfl

theorem takesValue_apply (f : Flag) (step : Step) :
    (f.apply step).takesValue = true ↔
      f.takesValue = true ∨ step = .takesValue ∨ ∃ values, step = .choices values := by
  cases step <;> simp [apply, withLong, withShort, takingValue, withChoices, withHelp]

/-! ## All steps -/

/-- What the last step that has something of this sort to say says. -/
def lastGiven {α : Type} (pick : Step → Option α) (steps : List Step) : Option α :=
  steps.reverse.findSome? pick

theorem lastGiven_snoc {α : Type} (pick : Step → Option α) (steps : List Step) (step : Step) :
    lastGiven pick (steps ++ [step]) = (pick step).or (lastGiven pick steps) := by
  rw [lastGiven, List.reverse_append, List.findSome?_append, List.reverse_singleton,
    List.findSome?_singleton, ← lastGiven]

theorem lastGiven_eq_some_iff {α : Type} {pick : Step → Option α} {steps : List Step} {a : α} :
    lastGiven pick steps = some a ↔
      ∃ front step back, steps = front ++ step :: back ∧ pick step = some a ∧
        ∀ later ∈ back, pick later = none := by
  rw [lastGiven, List.findSome?_eq_some_iff]
  constructor
  · rintro ⟨back, step, front, hsteps, hpick, hlater⟩
    refine ⟨front.reverse, step, back.reverse, ?_, hpick, ?_⟩
    · rw [List.reverse_eq_iff.mp hsteps]
      simp
    · simpa using hlater
  · rintro ⟨front, step, back, rfl, hpick, hlater⟩
    refine ⟨back.reverse, step, front.reverse, ?_, hpick, ?_⟩
    · simp
    · simpa using hlater

theorem ofSteps_snoc (steps : List Step) (step : Step) :
    ofSteps (steps ++ [step]) = (ofSteps steps).apply step := by
  simp [ofSteps]

/-- **A field is what the last step of its sort wrote.** -/
theorem field_ofSteps {α β : Type} (field : Flag → Option β) {pick : Step → Option α}
    {write : α → β} (hempty : field {} = none)
    (hstep : ∀ f step, field (f.apply step) = ((pick step).map write).or (field f))
    (steps : List Step) : field (ofSteps steps) = (lastGiven pick steps).map write := by
  induction steps using List.reverseRecOn with
  | nil => exact hempty
  | append_singleton steps step ih => rw [ofSteps_snoc, hstep, ih, lastGiven_snoc, Option.map_or]

theorem long_ofSteps (steps : List Step) :
    (ofSteps steps).long =
      (lastGiven Step.name? steps).map fun name => "--" ++ dropDashes name :=
  field_ofSteps Flag.long rfl long_apply steps

theorem short_ofSteps (steps : List Step) :
    (ofSteps steps).short =
      (lastGiven Step.letter? steps).map fun c => String.ofList ['-', c] :=
  field_ofSteps Flag.short rfl short_apply steps

theorem choices_ofSteps (steps : List Step) :
    (ofSteps steps).choices = (lastGiven Step.values? steps).map List.eraseDups :=
  field_ofSteps Flag.choices rfl choices_apply steps

theorem help_ofSteps (steps : List Step) :
    (ofSteps steps).help = lastGiven Step.text? steps := by
  rw [field_ofSteps Flag.help rfl help_apply steps, Option.map_id_fun, id_eq]

/-- **A value follows once some step has asked for one**, and no step takes that back. -/
theorem takesValue_ofSteps_iff (steps : List Step) :
    (ofSteps steps).takesValue = true ↔
      .takesValue ∈ steps ∨ ∃ values, .choices values ∈ steps := by
  induction steps using List.reverseRecOn with
  | nil => simp [ofSteps]
  | append_singleton steps step ih =>
    rw [ofSteps_snoc, takesValue_apply, ih]
    simp only [List.mem_append, List.mem_singleton, exists_or, eq_comm (a := step)]
    tauto

theorem takesValue_of_choices {steps : List Step} {values : List String}
    (h : (ofSteps steps).choices = some values) : (ofSteps steps).takesValue = true := by
  rw [choices_ofSteps, Option.map_eq_some_iff] at h
  obtain ⟨given, hlast, -⟩ := h
  obtain ⟨front, step, back, rfl, hpick, -⟩ := lastGiven_eq_some_iff.mp hlast
  cases step with
  | choices given => exact (takesValue_ofSteps_iff _).mpr (.inr ⟨given, by simp⟩)
  | long name => cases hpick
  | short c => cases hpick
  | takesValue => cases hpick
  | help text => cases hpick

/-- A flag that is put together with choices takes a value, and its choices are distinct. -/
theorem of_choices_ofSteps {steps : List Step} {values : List String}
    (h : (ofSteps steps).choices = some values) :
    (ofSteps steps).takesValue = true ∧ values.Nodup := by
  refine ⟨takesValue_of_choices h, ?_⟩
  rw [choices_ofSteps, Option.map_eq_some_iff] at h
  obtain ⟨given, -, rfl⟩ := h
  exact nodup_eraseDups given

/-- Both spellings have the form in which the steps write them. -/
structure Dashed (f : Flag) : Prop where
  long : ∀ s, f.long = some s → ∃ name, s = "--" ++ dropDashes name
  short : ∀ s, f.short = some s → ∃ c, s = String.ofList ['-', c]

theorem dashed_ofSteps (steps : List Step) : (ofSteps steps).Dashed where
  long s hs := by
    rw [long_ofSteps, Option.map_eq_some_iff] at hs
    obtain ⟨name, -, rfl⟩ := hs
    exact ⟨name, rfl⟩
  short s hs := by
    rw [short_ofSteps, Option.map_eq_some_iff] at hs
    obtain ⟨c, -, rfl⟩ := hs
    exact ⟨c, rfl⟩

/-- Every spelling of a flag that is put together begins with a dash. -/
theorem looksLikeFlag_of_mem_ofSteps {steps : List Step} {s : String}
    (h : s ∈ (ofSteps steps).spellings) : looksLikeFlag s = true := by
  rcases mem_spellings_iff.mp h with hshort | hlong
  · obtain ⟨c, rfl⟩ := (dashed_ofSteps steps).short s hshort
    exact looksLikeFlag_short c
  · obtain ⟨name, rfl⟩ := (dashed_ofSteps steps).long s hlong
    exact looksLikeFlag_long _

/-- **What comes of the steps, whatever their order.** The spellings, the choices and the help text
are those of the last step of each sort: the long spelling is two dashes and the name without the
dashes it begins with, the short one a dash and the letter, the choices are the values given, each
where it first occurs. A value follows exactly when some step asked for one or gave choices. Nothing
but the spellings is taken for the flag, so no word that does not look like one is. -/
theorem fields_ofSteps_iff (steps : List Step) :
    (∀ s, (ofSteps steps).long = some s ↔
      ∃ name text, lastGiven Step.name? steps = some name ∧ Undashes name text ∧
        s = "--" ++ text) ∧
    (∀ s, (ofSteps steps).short = some s ↔
      ∃ c, lastGiven Step.letter? steps = some c ∧ s = String.ofList ['-', c]) ∧
    (∀ values, (ofSteps steps).choices = some values ↔
      ∃ given, lastGiven Step.values? steps = some given ∧ FirstsOf given values) ∧
    (∀ values, (ofSteps steps).choices = some values →
      (ofSteps steps).takesValue = true ∧ values.Nodup) ∧
    ((ofSteps steps).takesValue = true ↔
      .takesValue ∈ steps ∨ ∃ values, .choices values ∈ steps) ∧
    (ofSteps steps).help = lastGiven Step.text? steps ∧
    (∀ word, (ofSteps steps).isSpelled word = true ↔
      (ofSteps steps).short = some word ∨ (ofSteps steps).long = some word) ∧
    (∀ word, looksLikeFlag word = false → (ofSteps steps).isSpelled word = false) := by
  refine ⟨?_, ?_, ?_, fun values => of_choices_ofSteps, takesValue_ofSteps_iff steps,
    help_ofSteps steps, fun word => isSpelled_iff, ?_⟩
  · intro s
    rw [long_ofSteps, Option.map_eq_some_iff]
    constructor
    · rintro ⟨name, hlast, rfl⟩
      exact ⟨name, _, hlast, undashes_dropDashes name, rfl⟩
    · rintro ⟨name, text, hlast, htext, rfl⟩
      exact ⟨name, hlast, by rw [undashes_iff.mp htext]⟩
  · intro s
    simp only [short_ofSteps, Option.map_eq_some_iff, eq_comm (a := s)]
  · intro values
    rw [choices_ofSteps, Option.map_eq_some_iff]
    constructor
    · rintro ⟨given, hlast, rfl⟩
      exact ⟨given, hlast, firstsOf_eraseDups given⟩
    · rintro ⟨given, hlast, hfirsts⟩
      exact ⟨given, hlast, (firstsOf_iff.mp hfirsts).symm⟩
  · intro word hplain
    rw [Bool.eq_false_iff, ne_eq, isSpelled_iff, ← mem_spellings_iff]
    intro hspelled
    rw [looksLikeFlag_of_mem_ofSteps hspelled] at hplain
    cases hplain

/-- Steps may be repeated; the last of each sort counts, and the dashes of a name do not. -/
example : ofSteps [.long "net", .choices ["dev"], .short 'x', .help "", .long "---réseau-",
      .short '-', .choices ["test", "dev", "test", ""]] =
    { long := some "--réseau-", short := some "--", takesValue := true,
      choices := some ["test", "dev", ""], help := some "" } := by
  decide

end Flag

end Toolbox
