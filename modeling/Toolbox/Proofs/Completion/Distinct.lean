import Mathlib.Data.List.Nodup
import Toolbox.Proofs.Completion.Reaching
import Toolbox.Proofs.Completion.TypedValues
import Toolbox.Proofs.Tree.Faults

/-!
# Texts offered twice

A menu takes its texts from one of three places, and each has its own reason for holding none twice.

* The values of a flag are distinct from the step on that sets them (`Flag.of_choices_ofSteps`).
* Subcommands are offered by their primary names, and an accepted command keeps the names of its
  children apart.
* The two spellings of one accepted flag differ in length. Two *flags* of one command may well be
  spelled alike: the check of a tree compares names of commands only, and a look-up takes the first
  flag of a spelling.

So a text is offered twice at one place only, and `Tree.complete_inserts_nodup_iff` says when: two
flags of the command share a spelling that begins with the fragment. `Tree.doubled` is an accepted
tree in which they do.
-/

namespace Toolbox

open Text

theorem Flag.nodup_spellings {command : String} {f : Flag} (h : f.check command = .ok ()) :
    f.spellings.Nodup := by
  obtain ⟨-, hwords⟩ := Flag.check_eq_ok_iff.mp h
  rw [spellings]
  cases hshort : f.short with
  | none => cases f.long <;> simp
  | some short =>
    cases hlong : f.long with
    | none => simp
    | some long =>
      have hne : short ≠ long := by
        rintro rfl
        have htwo := (hwords.short short hshort).1
        have hmore := (hwords.long short hlong).1
        omega
      simp [hne]

namespace Node

variable {n : Node}

theorem nodup_inserts_valueItems (h : n.Assembled) (flag needle : String) :
    ((n.valueItems flag needle).map (·.insert)).Nodup := by
  cases hfind : n.findFlag flag with
  | none => simp [valueItems, hfind]
  | some f =>
    obtain ⟨steps, rfl⟩ := h n .self f (findFlag_mem hfind).1
    cases hchoices : (Flag.ofSteps steps).choices with
    | none => simp [valueItems, hfind, hchoices]
    | some values =>
      obtain ⟨htakes, hnodup⟩ := Flag.of_choices_ofSteps hchoices
      rw [inserts_valueItems (findFlag_eq_some_iff.mp hfind) htakes hchoices]
      exact hnodup.filter _

theorem nodup_inserts_childItems (h : n.check = .ok ()) (fragment : String) :
    ((n.childItems fragment).map (·.insert)).Nodup := by
  rw [childItems, List.map_map]
  exact List.pairwise_map.mpr ((pairwise_name_ne h).filter _)

theorem inserts_flagItems (n : Node) (fragment : String) :
    (n.flagItems fragment).map (·.insert) =
      n.flags.flatMap fun f => f.spellings.filter (startsWith · fragment) := by
  rw [flagItems, List.map_flatMap]
  simp [Function.comp_def]

/-- No two flags of the command share a spelling that begins with the fragment. -/
def SpelledApart (n : Node) (fragment : String) : Prop :=
  n.flags.Pairwise fun f g => ∀ s ∈ f.spellings, startsWith s fragment = true → s ∉ g.spellings

instance (n : Node) (fragment : String) : Decidable (n.SpelledApart fragment) :=
  inferInstanceAs (Decidable (List.Pairwise _ _))

theorem nodup_inserts_flagItems_iff (h : n.check = .ok ()) (fragment : String) :
    ((n.flagItems fragment).map (·.insert)).Nodup ↔ n.SpelledApart fragment := by
  have hown : ∀ f ∈ n.flags, (f.spellings.filter (startsWith · fragment)).Nodup := by
    intro f hf
    exact (Flag.nodup_spellings ((check_eq_ok_iff.mp h).1 f hf)).filter _
  rw [inserts_flagItems, List.nodup_flatMap, and_iff_right hown, SpelledApart]
  refine List.Pairwise.iff ?_
  intro f g
  constructor
  · intro happart s hs hstart hg
    exact happart (List.mem_filter.mpr ⟨hs, hstart⟩) (List.mem_filter.mpr ⟨hg, hstart⟩)
  · intro happart s hs hg
    obtain ⟨hspelled, hstart⟩ := List.mem_filter.mp hs
    exact happart s hspelled hstart (List.mem_filter.mp hg).1

/-- **A command offers a text twice only among flags**, and there when two of them share it. -/
theorem nodup_inserts_offer_iff (h : n.check = .ok ()) (hmade : n.Assembled)
    (previous : Option String) (fragment : String) :
    (n.offer previous fragment).inserts.Nodup ↔
      ((n.offer previous fragment).kind = .flag → n.SpelledApart fragment) := by
  rcases n.offer_forms previous fragment with
    ⟨flag, needle, -, hmenu⟩ | ⟨-, -, hmenu⟩ | ⟨-, -, -, hmenu⟩ | ⟨-, -, -, -, hmenu⟩
  · rw [hmenu]
    exact iff_of_true (nodup_inserts_valueItems hmade flag needle) nofun
  · rw [hmenu, ← nodup_inserts_flagItems_iff h fragment]
    exact ⟨fun hnodup _ => hnodup, fun hnodup => hnodup rfl⟩
  · rw [hmenu]
    exact iff_of_true (nodup_inserts_childItems h fragment) nofun
  · rw [hmenu]
    exact iff_of_true List.nodup_nil nofun

end Node

namespace Tree

/-- **No response offers the same text twice**, but for flags: there a text is offered twice exactly
when two flags of the command at hand share it. -/
theorem complete_inserts_nodup_iff (t : Tree) (hmade : t.root.Assembled) (line : Line) :
    (t.complete line).inserts.Nodup ↔
      ((t.complete line).kind = .flag →
        ∀ n, t.CompletesAt line n → n.SpelledApart line.fragment) := by
  rw [complete_eq_answer]
  cases hwalk : t.root.walk (line.committed t.program) with
  | error e =>
    rw [answer_of_walk_error hwalk]
    exact iff_of_true List.nodup_nil nofun
  | ok n =>
    have hholds := Node.holds_of_walk hwalk
    rw [answer_of_walk_ok hwalk,
      Node.nodup_inserts_offer_iff (hholds.check t.faultless) (hholds.assembled hmade)]
    simp only [CompletesAt, hwalk, Except.ok.injEq, forall_eq']

/-- A tree that is accepted with two flags of one long spelling. -/
def doubled : Tree where
  root :=
    { name := "dot"
      flags := [Flag.ofSteps [.long "json"], Flag.ofSteps [.long "json", .short 'j']] }
  faultless := rfl

theorem doubled_assembled : doubled.root.Assembled := by
  refine Node.assembled_iff.mpr ⟨?_, nofun⟩
  intro f hf
  rcases List.mem_pair.mp hf with rfl | rfl
  · exact ⟨_, rfl⟩
  · exact ⟨_, rfl⟩

/-- Only one of the two flags has a spelling that begins with `-j`. -/
theorem doubled_complete_nodup :
    doubled.root.Assembled ∧
      (doubled.complete { tokens := ["dot"], fragment := "-j" }).inserts.Nodup := by
  refine ⟨doubled_assembled, (doubled.complete_inserts_nodup_iff doubled_assembled _).mpr ?_⟩
  intro _ n hn
  obtain rfl := Except.ok.inj hn
  have hapart : doubled.root.SpelledApart "-j" := by decide +kernel
  exact hapart

/-- The other spelling is offered for both. -/
theorem doubled_offers_twice :
    doubled.root.Assembled ∧
      (doubled.complete { tokens := ["dot"], fragment := "--" }).inserts = ["--json", "--json"] ∧
      ¬ (doubled.complete { tokens := ["dot"], fragment := "--" }).inserts.Nodup := by
  refine ⟨doubled_assembled, ?_, ?_⟩
  · decide +kernel
  · decide +kernel

end Tree

end Toolbox
