import Toolbox.Proofs.Tree.Accepted

/-!
# The first fault of a tree

`Node.check` is a recursion in a loop: it stops at the first fault, and what counts as one depends
on the names that were taken before. Here the same is said twice without running it.

* **What a tree without a fault is** has no order in it: every command of the tree is well formed
  (`Node.InOrder`), and the names of its children are distinct all at once, not one after the other.
* **What its first fault is** needs an order, and gets it from the first notion: a fault at some
  place is the first when the tree *up to that place* is in order. `Node.FirstFault` has one rule for
  each of the four faults and one for a fault below a child. The tree up to a place is the command
  with fewer flags or fewer children, so no rule mentions a list of names taken.

`Tree.ofRoot_reports_first_fault` is the agreement of both with the check.
-/

namespace Toolbox

open Text

/-! ## Flags in order -/

namespace Flag

/-- The flag can be typed at all. -/
def HasSpelling (f : Flag) : Prop :=
  f.long ≠ none ∨ f.short ≠ none

/-- Every spelling that the flag has is one word. -/
structure SpelledInWords (f : Flag) : Prop where
  long : ∀ s, f.long = some s →
    2 < s.length ∧ '=' ∉ s.toList ∧ ∀ c ∈ s.toList, isBlank c = false
  short : ∀ s, f.short = some s →
    s.length = 2 ∧ s.toList.getLast? ≠ some '-' ∧ s.toList.getLast? ≠ some '='

theorem hasSpelling_iff {f : Flag} : f.HasSpelling ↔ f.spellings.isEmpty = false := by
  rw [HasSpelling, spellings]
  cases f.long <;> cases f.short <;> simp

theorem longIsWord_iff {s : String} :
    longIsWord s = true ↔ 2 < s.length ∧ '=' ∉ s.toList ∧ ∀ c ∈ s.toList, isBlank c = false := by
  simp [longIsWord, holds, and_assoc]

theorem shortIsWord_iff {s : String} :
    shortIsWord s = true ↔
      s.length = 2 ∧ s.toList.getLast? ≠ some '-' ∧ s.toList.getLast? ≠ some '=' := by
  rw [shortIsWord, ← String.length_toList]
  match s.toList with
  | [] => simp
  | [_] => simp
  | [_, c] => simp
  | _ :: _ :: _ :: _ => simp

theorem spelledInWords_iff {f : Flag} : f.SpelledInWords ↔ f.isWellSpelled = true := by
  rw [isWellSpelled, Bool.and_eq_true, Option.all_eq_true, Option.all_eq_true]
  constructor
  · intro h
    exact ⟨fun s hs => longIsWord_iff.mpr (h.long s hs),
      fun s hs => shortIsWord_iff.mpr (h.short s hs)⟩
  · intro h
    exact ⟨fun s hs => longIsWord_iff.mp (h.1 s hs), fun s hs => shortIsWord_iff.mp (h.2 s hs)⟩

theorem check_eq_ok_iff {command : String} {f : Flag} :
    f.check command = .ok () ↔ f.HasSpelling ∧ f.SpelledInWords := by
  rw [check, hasSpelling_iff, spelledInWords_iff]
  cases f.spellings.isEmpty <;> cases f.isWellSpelled <;> simp

theorem check_eq_error_iff {command : String} {f : Flag} {fault : Fault} :
    f.check command = .error fault ↔
      (¬ f.HasSpelling ∧ fault = .missingSpelling command) ∨
      (f.HasSpelling ∧ ¬ f.SpelledInWords ∧
        fault = .malformedFlag command (joinWith ", " f.spellings)) := by
  rw [check, hasSpelling_iff, spelledInWords_iff]
  cases f.spellings.isEmpty <;> cases f.isWellSpelled <;> simp [eq_comm]

end Flag

/-! ## The loops of the check -/

/-- Something happens at a place of a list when it happens at the head, or behind it. -/
theorem exists_split_cons_iff {α : Type} {P : List α → α → Prop} {x : α} {xs : List α} :
    (∃ before y after, x :: xs = before ++ y :: after ∧ P before y) ↔
      P [] x ∨ ∃ before y after, xs = before ++ y :: after ∧ P (x :: before) y := by
  constructor
  · intro h
    obtain ⟨before, y, after, hsplit, hp⟩ := h
    cases before with
    | nil =>
      obtain ⟨rfl, rfl⟩ := List.cons.inj hsplit
      exact .inl hp
    | cons z before =>
      obtain ⟨rfl, rfl⟩ := List.cons.inj hsplit
      exact .inr ⟨before, y, after, rfl, hp⟩
  · intro h
    rcases h with hp | ⟨before, y, after, rfl, hp⟩
    · exact ⟨[], x, xs, rfl, hp⟩
    · exact ⟨x :: before, y, after, rfl, hp⟩

theorem checkFlags_eq_error_iff {command : String} {flags : List Flag} {fault : Fault} :
    checkFlags command flags = .error fault ↔
      ∃ before f after, flags = before ++ f :: after ∧
        checkFlags command before = .ok () ∧ f.check command = .error fault := by
  induction flags with
  | nil => simp [checkFlags]
  | cons f rest ih =>
    rw [exists_split_cons_iff, checkFlags]
    cases hf : f.check command with
    | error e => simp [checkFlags, hf]
    | ok _ => simp [checkFlags, hf, ih]

theorem claimNames_eq_error_iff {parent : String} {taken names : List String} {fault : Fault} :
    claimNames parent taken names = .error fault ↔
      ∃ front name back, names = front ++ name :: back ∧
        ∃ result, claimNames parent taken front = .ok result ∧ name ∈ result ∧
          fault = .duplicateName parent name := by
  induction names generalizing taken with
  | nil => simp [claimNames]
  | cons name rest ih =>
    rw [exists_split_cons_iff, claimNames]
    by_cases ht : name ∈ taken
    · simp [claimNames, ht, eq_comm]
    · simp [claimNames, ht, ih]

/-- Names can be claimed after others that are distinct when all together are. -/
theorem claimNames_reverse_eq_ok_iff {parent : String} {taken names result : List String}
    (ht : taken.Nodup) :
    claimNames parent taken.reverse names = .ok result ↔
      (taken ++ names).Nodup ∧ result = (taken ++ names).reverse := by
  rw [claimNames_eq_ok_iff, List.nodup_append, List.reverse_append]
  constructor
  · intro h
    obtain ⟨hd, hfree, hresult⟩ := h
    refine ⟨⟨ht, hd, ?_⟩, hresult⟩
    intro a ha b hb hab
    exact hfree b hb (List.mem_reverse.mpr (hab ▸ ha))
  · intro h
    obtain ⟨⟨-, hd, happart⟩, hresult⟩ := h
    refine ⟨hd, ?_, hresult⟩
    intro name hm htaken
    exact happart name (List.mem_reverse.mp htaken) name hm rfl

/-- The children have a fault when one of them has, given the names of those before it, which have
none. -/
theorem checkChildren_eq_error_iff {parent : String} {taken : List String} {children : List Node}
    {fault : Fault} :
    checkChildren parent taken children = .error fault ↔
      ∃ before c after, children = before ++ c :: after ∧
        checkChildren parent taken before = .ok () ∧
        checkChildren parent ((before.flatMap Node.names).reverse ++ taken) [c] = .error fault := by
  induction children generalizing taken with
  | nil => simp [checkChildren]
  | cons child rest ih =>
    rw [exists_split_cons_iff, checkChildren]
    by_cases hname : child.name = ""
    · simp [checkChildren, hname]
    cases hclaim : claimNames parent taken child.names with
    | error e => simp [checkChildren, hname, hclaim]
    | ok result =>
      -- what is taken for the rest is what the names of `child` and of those before it make up
      obtain ⟨-, -, rfl⟩ := claimNames_eq_ok_iff.mp hclaim
      cases hcheck : child.check with
      | error e => simp [checkChildren, hname, hclaim, hcheck]
      | ok _ => simp [checkChildren, hname, hclaim, hcheck, ih]

/-- One child: its name is missing, or one of its names is taken, or the fault is below it. -/
theorem checkChildren_singleton_eq_error_iff {parent : String} {taken : List String} {c : Node}
    {fault : Fault} :
    checkChildren parent taken [c] = .error fault ↔
      (c.name = "" ∧ fault = .emptyName parent) ∨
      (c.name ≠ "" ∧ claimNames parent taken c.names = .error fault) ∨
      (c.name ≠ "" ∧ (∃ result, claimNames parent taken c.names = .ok result) ∧
        c.check = .error fault) := by
  rw [checkChildren]
  by_cases hname : c.name = ""
  · simp [hname, eq_comm]
  cases hclaim : claimNames parent taken c.names with
  | error e => simp [hname]
  | ok result => cases c.check <;> simp [checkChildren, hname]

/-! ## Commands in order -/

namespace Node

/-- A command whose flags can be typed and whose children can be told apart. -/
structure WellFormed (n : Node) : Prop where
  flags : ∀ f ∈ n.flags, f.HasSpelling ∧ f.SpelledInWords
  named : ∀ c ∈ n.children, c.name ≠ ""
  distinct : (n.children.flatMap fun c => c.name :: c.aliases).Nodup

/-- Every command of the tree is well formed. -/
def InOrder (n : Node) : Prop :=
  ∀ m, n.Holds m → m.WellFormed

theorem sizeOf_lt_of_mem_children {n c : Node} (hc : c ∈ n.children) : sizeOf c < sizeOf n := by
  obtain ⟨name, aliases, about, hidden, flags, children⟩ := n
  have hlt : sizeOf c < sizeOf children := List.sizeOf_lt_of_mem hc
  simp only [mk.sizeOf_spec]
  omega

/-- What a command has whenever its children have it, all commands have. -/
theorem of_children {P : Node → Prop} (step : ∀ n, (∀ c ∈ n.children, P c) → P n) (n : Node) :
    P n :=
  step n fun c _ => of_children step c
termination_by sizeOf n
decreasing_by
  exact sizeOf_lt_of_mem_children (by assumption)

theorem check_eq_ok_iff_inOrder {n : Node} : n.check = .ok () ↔ n.InOrder := by
  constructor
  · intro h m hm
    obtain ⟨hflags, hchildren, hdistinct⟩ := check_eq_ok_iff.mp (hm.check h)
    exact ⟨fun f hf => Flag.check_eq_ok_iff.mp (hflags f hf), fun c hc => (hchildren c hc).1,
      hdistinct⟩
  · intro h
    induction n using of_children with
    | step n ih =>
      obtain ⟨hflags, hnamed, hdistinct⟩ := h n .self
      refine check_eq_ok_iff.mpr ⟨fun f hf => Flag.check_eq_ok_iff.mpr (hflags f hf), ?_, hdistinct⟩
      intro c hc
      exact ⟨hnamed c hc, ih c hc fun m hm => h m (.child hc hm)⟩

theorem check_eq (n : Node) :
    n.check =
      match checkFlags n.name n.flags with
      | .error fault => .error fault
      | .ok () => checkChildren n.name [] n.children := by
  obtain ⟨name, aliases, about, hidden, flags, children⟩ := n
  unfold check
  rfl

/-! ## The tree up to a place -/

theorem inOrder_flags_iff {n : Node} {flags : List Flag} :
    InOrder { n with flags := flags, children := [] } ↔ checkFlags n.name flags = .ok () := by
  rw [← check_eq_ok_iff_inOrder, check_eq]
  cases checkFlags n.name flags <;> simp [checkChildren]

theorem inOrder_children_iff {n : Node} {children : List Node} :
    InOrder { n with children := children } ↔
      checkFlags n.name n.flags = .ok () ∧ checkChildren n.name [] children = .ok () := by
  rw [← check_eq_ok_iff_inOrder, check_eq]
  cases checkFlags n.name n.flags <;> simp

/-- The check fails at a flag, or at a child, up to which the tree is in order. -/
theorem check_eq_error_iff {n : Node} {fault : Fault} :
    n.check = .error fault ↔
      (∃ before f after, n.flags = before ++ f :: after ∧
        InOrder { n with flags := before, children := [] } ∧ f.check n.name = .error fault) ∨
      (∃ before c after, n.children = before ++ c :: after ∧
        InOrder { n with children := before } ∧
        checkChildren n.name (before.flatMap names).reverse [c] = .error fault) := by
  simp only [inOrder_flags_iff, inOrder_children_iff, ← checkFlags_eq_error_iff]
  rw [check_eq]
  cases hflags : checkFlags n.name n.flags with
  | error e => simp
  | ok _ =>
    rw [checkChildren_eq_error_iff]
    simp

/-- The fault that is met first: what is looked at before it is in order. Flags come first, then the
children in turn, and of each child whether it is named, its names, and everything below it. -/
inductive FirstFault : Node → Fault → Prop where
  | missingSpelling {n : Node} {before after : List Flag} {f : Flag} :
      n.flags = before ++ f :: after → InOrder { n with flags := before, children := [] } →
      ¬ f.HasSpelling → FirstFault n (.missingSpelling n.name)
  | malformedFlag {n : Node} {before after : List Flag} {f : Flag} :
      n.flags = before ++ f :: after → InOrder { n with flags := before, children := [] } →
      f.HasSpelling → ¬ f.SpelledInWords →
      FirstFault n (.malformedFlag n.name (joinWith ", " f.spellings))
  | emptyName {n c : Node} {before after : List Node} :
      n.children = before ++ c :: after → InOrder { n with children := before } →
      c.name = "" → FirstFault n (.emptyName n.name)
  /-- A name of an earlier child, or one that stands twice among the child's own. -/
  | duplicateName {n c : Node} {before after : List Node} {front back : List String}
      {name : String} :
      n.children = before ++ c :: after → InOrder { n with children := before } →
      c.name ≠ "" → c.name :: c.aliases = front ++ name :: back →
      ((before.flatMap fun b => b.name :: b.aliases) ++ front).Nodup →
      name ∈ (before.flatMap fun b => b.name :: b.aliases) ++ front →
      FirstFault n (.duplicateName n.name name)
  /-- The names of the child are all new, and the fault is in the tree under it. -/
  | inside {n c : Node} {before after : List Node} {fault : Fault} :
      n.children = before ++ c :: after → InOrder { n with children := before } →
      c.name ≠ "" → ((before.flatMap fun b => b.name :: b.aliases) ++ c.name :: c.aliases).Nodup →
      FirstFault c fault → FirstFault n fault

theorem InOrder.nodup {n : Node} (h : n.InOrder) : (n.children.flatMap names).Nodup :=
  (h n .self).distinct

theorem FirstFault.check {n : Node} {fault : Fault} (h : n.FirstFault fault) :
    n.check = .error fault := by
  rw [check_eq_error_iff]
  induction h with
  | missingSpelling hsplit hbefore hno =>
    exact .inl ⟨_, _, _, hsplit, hbefore, Flag.check_eq_error_iff.mpr (.inl ⟨hno, rfl⟩)⟩
  | malformedFlag hsplit hbefore hsome hwords =>
    exact .inl ⟨_, _, _, hsplit, hbefore,
      Flag.check_eq_error_iff.mpr (.inr ⟨hsome, hwords, rfl⟩)⟩
  | emptyName hsplit hbefore hname =>
    exact .inr ⟨_, _, _, hsplit, hbefore,
      checkChildren_singleton_eq_error_iff.mpr (.inl ⟨hname, rfl⟩)⟩
  | duplicateName hsplit hbefore hname hnames hfront hmem =>
    refine .inr ⟨_, _, _, hsplit, hbefore,
      checkChildren_singleton_eq_error_iff.mpr (.inr (.inl ⟨hname, ?_⟩))⟩
    exact claimNames_eq_error_iff.mpr ⟨_, _, _, hnames, _,
      (claimNames_reverse_eq_ok_iff hbefore.nodup).mpr ⟨hfront, rfl⟩, List.mem_reverse.mpr hmem, rfl⟩
  | inside hsplit hbefore hname hnames _ ih =>
    refine .inr ⟨_, _, _, hsplit, hbefore,
      checkChildren_singleton_eq_error_iff.mpr (.inr (.inr ⟨hname, ?_, check_eq_error_iff.mpr ih⟩))⟩
    exact ⟨_, (claimNames_reverse_eq_ok_iff hbefore.nodup).mpr ⟨hnames, rfl⟩⟩

theorem FirstFault.of_check {n : Node} {fault : Fault} (h : n.check = .error fault) :
    n.FirstFault fault := by
  -- along the tree, for a fault below a child is the first fault of that child
  induction n using of_children with
  | step n ih =>
    rcases check_eq_error_iff.mp h with
      ⟨before, f, after, hsplit, hbefore, hf⟩ | ⟨before, c, after, hsplit, hbefore, hc⟩
    · rcases Flag.check_eq_error_iff.mp hf with ⟨hno, rfl⟩ | ⟨hsome, hwords, rfl⟩
      · exact .missingSpelling hsplit hbefore hno
      · exact .malformedFlag hsplit hbefore hsome hwords
    · rcases checkChildren_singleton_eq_error_iff.mp hc with
        ⟨hname, rfl⟩ | ⟨hname, hclaim⟩ | ⟨hname, ⟨result, hclaim⟩, hcheck⟩
      · exact .emptyName hsplit hbefore hname
      · obtain ⟨front, name, back, hnames, result, hfront, hmem, rfl⟩ :=
          claimNames_eq_error_iff.mp hclaim
        obtain ⟨hnodup, rfl⟩ := (claimNames_reverse_eq_ok_iff hbefore.nodup).mp hfront
        exact .duplicateName hsplit hbefore hname hnames hnodup (List.mem_reverse.mp hmem)
      · obtain ⟨hnodup, -⟩ := (claimNames_reverse_eq_ok_iff hbefore.nodup).mp hclaim
        have hchild : c ∈ n.children := by
          rw [hsplit]
          exact List.mem_append_right _ List.mem_cons_self
        exact .inside hsplit hbefore hname hnodup (ih c hchild hcheck)

end Node

/-! ## The check finds the first fault -/

namespace Tree

theorem ofRoot_eq_error_iff {root : Node} {fault : Fault} :
    ofRoot root = .error fault ↔ root.check = .error fault := by
  unfold ofRoot
  split
  · next hcheck => rw [hcheck]; simp
  · next hcheck => exact iff_of_false (by simp) (by simp [hcheck])

/-- **A root is accepted exactly when every command of its tree is well formed, and it is accepted as
it is; else it is refused for the fault that is met first.** -/
theorem ofRoot_reports_first_fault (root : Node) :
    ((∃ t, ofRoot root = .ok t) ↔ root.InOrder) ∧
    (∀ t, ofRoot root = .ok t → t.root = root) ∧
    (∀ fault, ofRoot root = .error fault ↔ root.FirstFault fault) := by
  refine ⟨⟨?_, ?_⟩, fun t => ofRoot_eq_ok, ?_⟩
  · intro h
    obtain ⟨t, ht⟩ := h
    rw [← Node.check_eq_ok_iff_inOrder, ← ofRoot_eq_ok ht]
    exact t.faultless
  · intro h
    exact ⟨_, ofRoot_of_check (Node.check_eq_ok_iff_inOrder.mpr h)⟩
  · intro fault
    rw [ofRoot_eq_error_iff]
    exact ⟨Node.FirstFault.of_check, Node.FirstFault.check⟩

/-- A fault below an earlier child comes before one of a later child's name. -/
example :
    (ofRoot { name := "dot"
              children := [
                { name := "list", children := [{ name := "" }] },
                { name := "list", flags := [{}] }] }) = .error (.emptyName "list") := rfl

end Tree

end Toolbox
