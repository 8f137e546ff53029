import Toolbox.Proofs.Tree.Assembly
import Toolbox.Proofs.Tree.Faults

/-!
# Flags as they are accepted

A walk tells a flag from a command by its first character, and a flag that awaits its value from one
that carries it by the `=` in it. Neither is asked of a `Flag` as such: any two texts may stand in
its fields. The dash comes from the way flags are put together
(`Flag.looksLikeFlag_of_mem_ofSteps`). That no `=` is in a spelling comes from the check, which looks
at the last character only of a short one. Its first character is the dash, so the two facts are
needed together (`Flag.holds_eq_of_check`).

Hence trees are asked for whose flags are all put together step by step (`Node.Assembled`).
-/

namespace Toolbox

open Text

namespace Flag

/-! ## Flags that are accepted -/

/-- No spelling of an accepted flag holds a `=`. -/
theorem holds_eq_of_check {command : String} {f : Flag} {s : String}
    (h : f.check command = .ok ()) (hs : s ∈ f.spellings) (hdash : looksLikeFlag s = true) :
    holds '=' s = false := by
  obtain ⟨-, hwords⟩ := check_eq_ok_iff.mp h
  rw [holds_eq_false_iff]
  rcases mem_spellings_iff.mp hs with hshort | hlong
  · -- the dash is no `=`, and the check says so of the one character behind it
    obtain ⟨hlength, -, hlast⟩ := hwords.short s hshort
    obtain ⟨rest, hrest⟩ := List.head?_eq_some_iff.mp (looksLikeFlag_iff.mp hdash)
    rw [← String.length_toList, hrest] at hlength
    obtain ⟨c, rfl⟩ := List.length_eq_one_iff.mp (Nat.succ.inj hlength)
    rw [hrest] at hlast ⊢
    simpa [eq_comm] using hlast
  · exact (hwords.long s hlong).2.1

end Flag

/-! ## Trees of flags that are put together -/

namespace Node

/-- Every flag of the command and of the commands below it is put together step by step. -/
def Assembled (n : Node) : Prop :=
  ∀ m, n.Holds m → ∀ f ∈ m.flags, ∃ steps, f = Flag.ofSteps steps

theorem assembled_iff {n : Node} :
    n.Assembled ↔
      (∀ f ∈ n.flags, ∃ steps, f = Flag.ofSteps steps) ∧ ∀ c ∈ n.children, c.Assembled := by
  constructor
  · intro h
    exact ⟨h n .self, fun c hc m hm => h m (.child hc hm)⟩
  · intro h m hm
    cases hm with
    | self => exact h.1
    | child hc hm => exact h.2 _ hc m hm

theorem Holds.assembled {n m : Node} (hm : n.Holds m) (h : n.Assembled) : m.Assembled :=
  fun k hk => h k (hm.trans hk)

end Node

end Toolbox
