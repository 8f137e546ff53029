import Mathlib.Data.List.Nodup
import Toolbox.Tree.Basic

/-!
# Accepted trees

`Node.check` goes through a tree and stops at the first fault. This file says what is known of a
tree in which it found none: `Node.check_eq_ok_iff` turns the check of one command into three facts
without an order between them, of which the third is the one that later proofs live on:

> under an accepted command no word is a name of two children, or twice a name of one.

A look-up takes the *first* child with an equal name, a reader of the declarations means *the* child
of that name. `Node.findChild_eq_some_iff` is the agreement of the two, and it holds at accepted
commands only. Acceptance is handed down to every command of the tree (`Node.Holds.check`), so the
agreement is there wherever a walk may end.
-/

namespace Toolbox

/-! ## The parts of the check -/

theorem checkFlags_eq_ok_iff {command : String} {flags : List Flag} :
    checkFlags command flags = .ok () ↔ ∀ f ∈ flags, f.check command = .ok () := by
  induction flags with
  | nil => simp [checkFlags]
  | cons f rest ih =>
    cases hf : f.check command with
    | error fault => simp [checkFlags, hf]
    | ok _ => simp [checkFlags, hf, ih]

theorem claimNames_eq_ok_iff {parent : String} {taken names result : List String} :
    claimNames parent taken names = .ok result ↔
      names.Nodup ∧ (∀ name ∈ names, name ∉ taken) ∧ result = names.reverse ++ taken := by
  induction names generalizing taken with
  | nil => simp [claimNames, eq_comm]
  | cons name rest ih =>
    by_cases ht : name ∈ taken
    · simp [claimNames, ht]
    · rw [claimNames, if_neg ht, ih]
      simp only [List.mem_cons, not_or, List.nodup_cons, List.reverse_cons, List.append_assoc,
        List.singleton_append]
      constructor
      · intro h
        obtain ⟨hd, hn, hr⟩ := h
        refine ⟨⟨fun hm => (hn name hm).1 rfl, hd⟩, ?_, hr⟩
        intro other ho
        rcases ho with rfl | ho
        · exact ht
        · exact (hn other ho).2
      · intro h
        obtain ⟨⟨hname, hd⟩, hn, hr⟩ := h
        exact ⟨hd, fun other ho => ⟨fun he => hname (he ▸ ho), hn other (.inr ho)⟩, hr⟩

/-- The children pass exactly when each is named and accepted and their names, all in one row, are
distinct and none of them was taken. -/
theorem checkChildren_eq_ok_iff {parent : String} {taken : List String} {children : List Node} :
    checkChildren parent taken children = .ok () ↔
      (∀ c ∈ children, c.name ≠ "" ∧ c.check = .ok ()) ∧ (children.flatMap Node.names).Nodup ∧
        ∀ name ∈ children.flatMap Node.names, name ∉ taken := by
  induction children generalizing taken with
  | nil => simp [checkChildren]
  | cons child rest ih =>
    rw [checkChildren]
    by_cases hname : child.name = ""
    · simp [hname]
    rw [if_neg hname]
    cases hclaim : claimNames parent taken child.names with
    | error fault =>
      -- the names of `child` stand in the row of all names, so they could be claimed
      refine iff_of_false (by simp) ?_
      intro h
      obtain ⟨-, hd, ht⟩ := h
      rw [List.flatMap_cons] at hd ht
      have hfree : ∀ name ∈ child.names, name ∉ taken := fun name hm =>
        ht name (List.mem_append_left _ hm)
      rw [claimNames_eq_ok_iff.mpr ⟨(List.nodup_append.mp hd).1, hfree, rfl⟩] at hclaim
      cases hclaim
    | ok result =>
      obtain ⟨hd, ht, rfl⟩ := claimNames_eq_ok_iff.mp hclaim
      cases hcheck : child.check with
      | error fault => simp [hcheck]
      | ok _ =>
        simp only [ih, List.flatMap_cons, List.nodup_append, List.mem_cons, List.mem_append,
          List.mem_reverse, not_or]
        constructor
        · intro h
          obtain ⟨hall, hrest, hfree⟩ := h
          refine ⟨?_, ⟨hd, hrest, fun a ha b hb he => (hfree b hb).1 (he ▸ ha)⟩, ?_⟩
          · intro c hc
            rcases hc with rfl | hc
            · exact ⟨hname, hcheck⟩
            · exact hall c hc
          · intro name hm
            rcases hm with hm | hm
            · exact ht name hm
            · exact (hfree name hm).2
        · intro h
          obtain ⟨hall, ⟨-, hrest, happart⟩, hfree⟩ := h
          exact ⟨fun c hc => hall c (.inr hc), hrest,
            fun name hm => ⟨fun hc => happart name hc name hm rfl, hfree name (.inr hm)⟩⟩

/-- A root without a fault is accepted as it is. -/
theorem Tree.ofRoot_of_check {root : Node} (h : root.check = .ok ()) :
    Tree.ofRoot root = .ok ⟨root, h⟩ := by
  unfold Tree.ofRoot
  split
  · next hfault => rw [h] at hfault; cases hfault
  · rfl

namespace Node

/-- **What an accepted command is**: its flags are well spelled, each child has a name and is
accepted, and no two names of its children are equal. -/
theorem check_eq_ok_iff {n : Node} :
    n.check = .ok () ↔
      (∀ f ∈ n.flags, f.check n.name = .ok ()) ∧
      (∀ c ∈ n.children, c.name ≠ "" ∧ c.check = .ok ()) ∧
      (n.children.flatMap names).Nodup := by
  obtain ⟨name, aliases, about, hidden, flags, children⟩ := n
  rw [check]
  cases hflags : checkFlags name flags with
  | error fault =>
    refine iff_of_false (by simp) ?_
    intro h
    rw [checkFlags_eq_ok_iff.mpr h.1] at hflags
    cases hflags
  | ok _ => simp [checkChildren_eq_ok_iff, ← checkFlags_eq_ok_iff, hflags]

/-! ## Children by their names -/

theorem eq_of_mem_names {children : List Node} (hd : (children.flatMap names).Nodup) {a b : Node}
    {word : String} (ha : a ∈ children) (hb : b ∈ children) (hwa : word ∈ a.names)
    (hwb : word ∈ b.names) : a = b := by
  induction children with
  | nil => exact absurd ha (by simp)
  | cons c rest ih =>
    rw [List.flatMap_cons, List.nodup_append] at hd
    obtain ⟨-, hrest, happart⟩ := hd
    -- a name of `c` and a name of a later child are never equal
    have hlater : ∀ d ∈ rest, word ∈ c.names → word ∉ d.names := by
      intro d hm hc hw
      exact happart word hc word (List.mem_flatMap.mpr ⟨d, hm, hw⟩) rfl
    rcases List.mem_cons.mp ha with rfl | ha' <;> rcases List.mem_cons.mp hb with rfl | hb'
    · rfl
    · exact absurd hwb (hlater b hb' hwa)
    · exact absurd hwa (hlater a ha' hwb)
    · exact ih hrest ha' hb'

/-- **Looking a word up finds the child that goes by it**, primary name or alias alike. -/
theorem findChild_eq_some_iff {n c : Node} {word : String} (h : n.check = .ok ()) :
    n.findChild word = some c ↔ c ∈ n.children ∧ word ∈ c.names := by
  refine ⟨findChild_mem, ?_⟩
  intro hc
  obtain ⟨hc, hw⟩ := hc
  cases hfind : n.findChild word with
  | none => exact absurd hw (findChild_eq_none_iff.mp hfind c hc)
  | some d =>
    obtain ⟨hd, hwd⟩ := findChild_mem hfind
    rw [eq_of_mem_names (check_eq_ok_iff.mp h).2.2 hd hc hwd hw]

theorem findChild_name {n c : Node} (h : n.check = .ok ()) (hc : c ∈ n.children) :
    n.findChild c.name = some c :=
  (findChild_eq_some_iff h).mpr ⟨hc, List.mem_cons_self⟩

/-- The children are told apart by their primary names alone. -/
theorem pairwise_name_ne {n : Node} (h : n.check = .ok ()) :
    n.children.Pairwise fun c d => c.name ≠ d.name := by
  refine (List.nodup_flatMap.mp (check_eq_ok_iff.mp h).2.2).2.imp ?_
  intro c d happart he
  have hc : c.name ∈ c.names := List.mem_cons_self
  have hd : c.name ∈ d.names := by
    rw [he]
    exact List.mem_cons_self
  exact List.disjoint_left.mp happart hc hd

/-! ## Every command of a tree -/

/-- The commands of the tree under `n`: `n` itself and everything below it. -/
inductive Holds : Node → Node → Prop where
  | self {n : Node} : Holds n n
  | child {n c m : Node} : c ∈ n.children → Holds c m → Holds n m

theorem Holds.check {n m : Node} (hm : n.Holds m) (h : n.check = .ok ()) : m.check = .ok () := by
  induction hm with
  | self => exact h
  | child hc _ ih => exact ih ((check_eq_ok_iff.mp h).2.1 _ hc).2

theorem Holds.trans {n m k : Node} (hm : n.Holds m) (hk : m.Holds k) : n.Holds k := by
  induction hm with
  | self => exact hk
  | child hc _ ih => exact .child hc (ih hk)

end Node

/-! ## A tree to try things on -/

/-- Commands with an alias and without, a hidden one, and flags with values and without. -/
def Tree.sample : Tree where
  root :=
    { name := "dot"
      flags := [Flag.ofSteps [.long "json"]]
      children := [
        { name := "list", aliases := ["ls"], about := "Discover things"
          children := [{ name := "templates" }, { name := "tutorials" }] },
        { name := "init"
          flags := [Flag.ofSteps [.long "network", .short 'n', .choices ["dev", "test"]]]
          children := [{ name := "contracts" }] },
        { name := "__complete", hidden := true }] }
  faultless := rfl

end Toolbox
