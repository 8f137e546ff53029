import Toolbox.Proofs.Completion.Decoding

/-!
# The column of remarks

In the menu each insert is filled up with spaces, so that the remarks beside the inserts begin in one
column. Two passes have to agree for that: the column's width is taken from the inserts as they come,
and what is filled up is the insert on one line. They agree because on one line a text has as many
characters as before (`Flattens.length_eq`), and the width is greater by two than any insert is long
(`le_width`).

Everything is counted in characters. How wide a terminal shows them is not asked here.
-/

namespace Toolbox.Response

open Text

variable {m : Menu} {c : Candidate}

/-! ## The width -/

theorem le_foldl_max (items : List Candidate) (w : Nat) :
    w ≤ items.foldl (fun w c => max w c.insert.length) w ∧
      ∀ c ∈ items, c.insert.length ≤ items.foldl (fun w c => max w c.insert.length) w := by
  induction items generalizing w with
  | nil => exact ⟨Nat.le_refl w, nofun⟩
  | cons first rest ih =>
    obtain ⟨hstart, hrest⟩ := ih (max w first.insert.length)
    rw [List.foldl_cons]
    refine ⟨Nat.le_trans (Nat.le_max_left _ _) hstart, ?_⟩
    intro c hc
    rcases List.mem_cons.mp hc with rfl | hc
    · exact Nat.le_trans (Nat.le_max_right _ _) hstart
    · exact hrest c hc

theorem foldl_max_eq (items : List Candidate) (w : Nat) :
    items.foldl (fun w c => max w c.insert.length) w = w ∨
      ∃ c ∈ items, items.foldl (fun w c => max w c.insert.length) w = c.insert.length := by
  induction items generalizing w with
  | nil => exact .inl rfl
  | cons first rest ih =>
    rw [List.foldl_cons]
    rcases ih (max w first.insert.length) with hmax | ⟨c, hc, hmax⟩
    · rw [hmax]
      rcases Nat.le_total first.insert.length w with hle | hle
      · exact .inl (Nat.max_eq_left hle)
      · exact .inr ⟨first, List.mem_cons_self, Nat.max_eq_right hle⟩
    · exact .inr ⟨c, List.mem_cons_of_mem _ hc, hmax⟩

/-- Every insert leaves at least two characters of the column free. -/
theorem le_width (hc : c ∈ m.items) : c.insert.length + 2 ≤ width m :=
  Nat.add_le_add_right ((le_foldl_max m.items 0).2 c hc) 2

/-- The longest insert leaves exactly two. -/
theorem exists_width_eq (h : m.items ≠ []) : ∃ c ∈ m.items, width m = c.insert.length + 2 := by
  rcases foldl_max_eq m.items 0 with hzero | ⟨c, hc, hmax⟩
  · obtain ⟨c, hc⟩ := List.exists_mem_of_ne_nil _ h
    have hle := (le_foldl_max m.items 0).2 c hc
    refine ⟨c, hc, ?_⟩
    rw [width, hzero]
    omega
  · exact ⟨c, hc, by rw [width, hmax]⟩

/-! ## The lines -/

/-- The line of a candidate with its remark in the column `width`: behind the first separator stands
the insert on one line, then at least two spaces, up to `width` characters in all, and then the
remark. -/
def InColumn (style : ResponseStyle) (width : Nat) (c : Candidate) (line : String) : Prop :=
  ∃ insert remark spaces, Flattens c.insert insert ∧ RemarkOf style.descriptions c remark ∧
    2 ≤ spaces ∧ insert.length + spaces = width ∧
    cutAt '\x1f' line = some (insert,
      insert ++ String.ofList (List.replicate spaces ' ') ++ remark)

theorem inColumn_candidateLine (style : ResponseStyle) (hc : c ∈ m.items) :
    InColumn style (width m) c (candidateLine style (width m) c).text := by
  have hfits := le_width hc
  rw [← (flattens_flat c.insert).length_eq] at hfits
  refine ⟨flat c.insert, remark style c, width m - (flat c.insert).length,
    flattens_flat c.insert, remarkOf_remark style c, ?_, ?_, ?_⟩
  · omega
  · omega
  · rw [candidateLine_eq, Line.text, cutAt_eq_some_iff, padTo]
    exact ⟨rfl, holds_of_isClean (isClean_flat _) (.inr (.inr rfl))⟩

/-- **The remarks of a menu line up.** In the text of a response the candidates have one line each,
in order, and all lines have the remark in the same column. It is two characters to the right of the
longest insert. -/
theorem encode_lines_up (style : ResponseStyle) (m : Menu) :
    ∃ width,
      (∀ c ∈ m.items, c.insert.length + 2 ≤ width) ∧
      (m.items ≠ [] → ∃ c ∈ m.items, width = c.insert.length + 2) ∧
      List.Forall₂ (InColumn style width) m.items
        ((splitLines (m.encode style)).filter isCandidate) := by
  refine ⟨width m, fun c hc => le_width hc, exists_width_eq, ?_⟩
  rw [filter_isCandidate_splitLines, candidateTexts, List.forall₂_map_right_iff,
    List.forall₂_same]
  intro c hc
  exact inColumn_candidateLine style hc

end Toolbox.Response
