import Toolbox.Text.Affix

/-!
# Beginnings and cuts, on texts

`Toolbox.Text` reads a text through its list of characters. The laws that the theorems about words
and lines use are about texts put together with `++`, and this file carries them over: what it is to
begin with a text (`startsWith_iff_append`), what it is to be cut at a character
(`cutAt_eq_some_iff`), and which characters a text put together holds.
-/

namespace Toolbox.Text

/-! ## Beginnings -/

theorem startsWith_iff_append {s start : String} :
    startsWith s start = true ↔ ∃ rest, s = start ++ rest := by
  rw [startsWith_iff]
  constructor
  · intro h
    obtain ⟨rest, h⟩ := h
    refine ⟨String.ofList rest, ?_⟩
    rw [← String.toList_inj]
    simp [h]
  · intro h
    obtain ⟨rest, rfl⟩ := h
    exact ⟨rest.toList, String.toList_append⟩

theorem startsWith_append (start rest : String) : startsWith (start ++ rest) start = true :=
  startsWith_iff_append.mpr ⟨rest, rfl⟩

theorem startsWith_trans {s mid start : String} (h : startsWith s mid = true)
    (hmid : startsWith mid start = true) : startsWith s start = true := by
  obtain ⟨back, rfl⟩ := startsWith_iff_append.mp h
  obtain ⟨rest, rfl⟩ := startsWith_iff_append.mp hmid
  exact startsWith_iff_append.mpr ⟨rest ++ back, String.append_assoc⟩

theorem startsWith_of_append {front back start : String}
    (h : startsWith (front ++ back) start = true) (hlen : start.length ≤ front.length) :
    startsWith front start = true := by
  rw [startsWith, List.isPrefixOf_iff_prefix] at h ⊢
  rw [String.toList_append] at h
  -- `start` and `front` are two beginnings of one list, and the shorter one begins the other
  refine List.prefix_of_prefix_length_le h (List.prefix_append _ _) ?_
  rw [String.length_toList, String.length_toList]
  exact hlen

theorem after?_append (start rest : String) : after? start (start ++ rest) = some rest := by
  rw [after?, if_pos (startsWith_append start rest)]
  simp

theorem after?_eq_some_iff {start s rest : String} :
    after? start s = some rest ↔ s = start ++ rest := by
  constructor
  · intro h
    rw [after?] at h
    split at h
    case isTrue hstart =>
      obtain ⟨back, rfl⟩ := startsWith_iff_append.mp hstart
      simpa using h
    case isFalse => cases h
  · rintro rfl
    exact after?_append start rest

theorem after?_eq_none_iff {start s : String} :
    after? start s = none ↔ startsWith s start = false := by
  simp [after?]

/-! ## Cuts -/

theorem holds_eq_false_iff {c : Char} {s : String} : holds c s = false ↔ c ∉ s.toList := by
  simp [holds]

theorem holds_append (c : Char) (s t : String) : holds c (s ++ t) = (holds c s || holds c t) := by
  simp [holds]

theorem cutAt_eq_some_iff {sep : Char} {s front back : String} :
    cutAt sep s = some (front, back) ↔
      s = front ++ String.ofList [sep] ++ back ∧ holds sep front = false := by
  rw [holds_eq_false_iff, ← String.toList_inj]
  simp only [cutAt, Option.map_eq_some_iff, Prod.exists, Prod.mk.injEq, cutList_eq_some_iff,
    String.toList_append, String.toList_ofList, List.append_assoc, List.singleton_append]
  constructor
  · intro h
    obtain ⟨a, b, ⟨hs, hn⟩, rfl, rfl⟩ := h
    simpa using ⟨hs, hn⟩
  · intro h
    obtain ⟨hs, hn⟩ := h
    exact ⟨front.toList, back.toList, ⟨hs, hn⟩, by simp, by simp⟩

theorem cutAt_eq_none_iff {sep : Char} {s : String} : cutAt sep s = none ↔ holds sep s = false := by
  rw [holds_eq_false_iff, cutAt, Option.map_eq_none_iff, cutList_eq_none_iff]

/-- A text without `sep` that begins a text with a `sep` in it ends before the first one. -/
theorem startsWith_of_cut {sep : Char} {front back start : String}
    (h : startsWith (front ++ String.ofList [sep] ++ back) start = true)
    (hs : holds sep start = false) : startsWith front start = true := by
  rcases Nat.lt_or_ge front.length start.length with hlt | hle
  · -- a longer beginning would have the `sep` behind `front` in it
    obtain ⟨rest, hrest⟩ := startsWith_iff.mp h
    have hline : front.toList ++ [sep] <+: start.toList ++ rest := by
      rw [← hrest]
      simp
    have hlen : (front.toList ++ [sep]).length ≤ start.toList.length := by
      rw [List.length_append, String.length_toList, String.length_toList]
      exact hlt
    have hpre := List.prefix_of_prefix_length_le hline (List.prefix_append _ _) hlen
    rw [holds_eq_false_iff] at hs
    exact absurd (hpre.subset (by simp)) hs
  · rw [String.append_assoc] at h
    exact startsWith_of_append h hle

/-! ## Lines -/

/-- The texts between the newlines of a text. -/
def splitLines (s : String) : List String :=
  (s.toList.splitOn '\n').map String.ofList

/-- Lines that are written one after the other, each closed by a newline, are found again, and after
the last newline nothing is left. -/
theorem splitLines_lines {texts : List String} (h : ∀ s ∈ texts, holds '\n' s = false) :
    splitLines (lines texts) = texts ++ [""] := by
  induction texts with
  | nil => simp [splitLines, lines]
  | cons s rest ih =>
    have hs : '\n' ∉ s.toList := holds_eq_false_iff.mp (h s List.mem_cons_self)
    have hnewline : "\n".toList = ['\n'] := by decide
    rw [lines, splitLines, String.toList_append, String.toList_append, hnewline,
      List.append_assoc, List.singleton_append, List.splitOn_append_cons_self_of_not_mem hs,
      List.map_cons, String.ofList_toList, ← splitLines,
      ih fun t ht => h t (List.mem_cons_of_mem _ ht), List.cons_append]

end Toolbox.Text
