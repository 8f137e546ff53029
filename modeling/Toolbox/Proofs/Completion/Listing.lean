import Toolbox.Proofs.Completion.Grammar
import Toolbox.Proofs.Completion.Reaching

/-!
# Listing and looking up

A menu of subcommands is made by going through the children with two tests, that a child is shown
and that one of its names begins with the fragment, and it writes each child down by its *primary*
name. A word on the line is looked up among *all* names of *all* children, hidden ones included, and
the first hit counts. Nothing in the two functions says that a name which was written down leads
back to the child it was written down for.

> under an accepted command the look-up of what is listed gives back the list.

That is `Node.map_findChild_childItems`, and the reason is that no two children share a name, so
that no hidden child can stand behind a name that is shown (`Node.findChild_name`).
`Tree.complete_lists_children` says it of whole requests, and which requests these are is read off
the fragment and the word before it (`Node.offer_kind_eq_subcommand_iff`).
-/

namespace Toolbox

open Text

namespace Node

variable {n c : Node} {previous : Option String} {fragment : String}

/-- The children that a menu of subcommands lists for the fragment. -/
def listed (n : Node) (fragment : String) : List Node :=
  n.children.filter fun c => !c.hidden && c.hasNameStarting fragment

theorem childItems_eq_map_listed (n : Node) (fragment : String) :
    n.childItems fragment = (n.listed fragment).map asItem := rfl

theorem mem_listed_iff :
    c ∈ n.listed fragment ↔
      c ∈ n.children ∧ c.hidden = false ∧ ∃ rest, fragment ++ rest ∈ c.names := by
  simp [listed, hasNameStarting_iff]

theorem nodup_children (h : n.check = .ok ()) : n.children.Nodup := by
  refine (pairwise_name_ne h).imp ?_
  rintro c d hname rfl
  exact hname rfl

/-- **What is listed is what its texts look up**, child by child. -/
theorem map_findChild_childItems (h : n.check = .ok ()) (fragment : String) :
    ((n.childItems fragment).map (·.insert)).map n.findChild = (n.listed fragment).map some := by
  rw [childItems_eq_map_listed, List.map_map, List.map_map]
  apply List.map_congr_left
  intro c hc
  exact findChild_name h (mem_listed_iff.mp hc).1

/-- No text of the list leads to a hidden child. -/
theorem shown_of_findChild_insert (h : n.check = .ok ()) {insert : String}
    (hinsert : insert ∈ (n.childItems fragment).map (·.insert))
    (hc : n.findChild insert = some c) : c.hidden = false := by
  have hmem : some c ∈ (n.listed fragment).map some := by
    rw [← map_findChild_childItems h fragment, ← hc]
    exact List.mem_map_of_mem hinsert
  obtain ⟨d, hd, hdc⟩ := List.mem_map.mp hmem
  obtain rfl := Option.some.inj hdc
  exact (mem_listed_iff.mp hd).2.1

theorem childItems_of_all_hidden
    (hall : ∀ c ∈ n.children, (∃ rest, fragment ++ rest ∈ c.names) → c.hidden = true) :
    n.childItems fragment = [] := by
  rw [childItems_eq_map_listed, List.map_eq_nil_iff, List.eq_nil_iff_forall_not_mem]
  intro c hc
  obtain ⟨hchild, hshown, hname⟩ := mem_listed_iff.mp hc
  rw [hall c hchild hname] at hshown
  cases hshown

/-! ## Menus of subcommands -/

/-- No value is expected behind this word: it is no flag, it holds a `=`, or the first flag spelled
like it takes none. -/
def ExpectsNoValue (n : Node) (word : String) : Prop :=
  startsWith word "-" = false ∨ holds '=' word = true ∨
    ∃ f, n.FirstFlag word f ∧ f.takesValue = false

theorem expectsNoValue_iff {word : String} :
    n.ExpectsNoValue word ↔
      ¬ (looksLikeFlag word = true ∧ holds '=' word = false ∧
        (n.findFlag word).all (·.takesValue) = true) := by
  simp only [ExpectsNoValue, ← findFlag_eq_some_iff, looksLikeFlag]
  cases startsWith word "-" <;> cases holds '=' word <;> cases n.findFlag word <;> simp

theorem valueUnderCursor_eq_none_iff (hf : looksLikeFlag fragment = false) :
    n.valueUnderCursor previous fragment = none ↔
      ∀ word, previous = some word → n.ExpectsNoValue word := by
  simp only [Option.eq_none_iff_forall_ne_some, expectsNoValue_iff, Prod.forall, ne_eq,
    valueUnderCursor_eq_some_iff (inlineValue_of_plain hf)]
  constructor
  · rintro h word hword ⟨hflag, heq, htakes⟩
    exact h _ _ ⟨hword, hflag, heq, htakes, rfl⟩
  · rintro h flag needle ⟨hword, hflag, heq, htakes, -⟩
    exact h flag hword ⟨hflag, heq, htakes⟩

/-- **Which requests are answered with subcommands**: the fragment is no flag and no value, and it is
empty or begins the name of a child, hidden or not. -/
theorem offer_kind_eq_subcommand_iff :
    (n.offer previous fragment).kind = .subcommand ↔
      looksLikeFlag fragment = false ∧
        (∀ word, previous = some word → n.ExpectsNoValue word) ∧
        (fragment = "" ∨ ∃ c ∈ n.children, ∃ rest, fragment ++ rest ∈ c.names) := by
  simp only [← hasNameStarting_iff]
  rcases n.offer_forms previous fragment with
    ⟨flag, needle, hv, hmenu⟩ | ⟨-, hf, hmenu⟩ | ⟨hv, hf, hsome, hmenu⟩ | ⟨-, -, hne, hno, hmenu⟩
  · refine iff_of_false (by simp [hmenu, Menu.found]) ?_
    rintro ⟨hf, hexpects, -⟩
    rw [(valueUnderCursor_eq_none_iff hf).mpr hexpects] at hv
    cases hv
  · refine iff_of_false (by simp [hmenu, Menu.found]) ?_
    rintro ⟨hplain, -⟩
    rw [hf] at hplain
    cases hplain
  · exact iff_of_true (by rw [hmenu]; rfl)
      ⟨hf, (valueUnderCursor_eq_none_iff hf).mp hv, hsome⟩
  · refine iff_of_false (by simp [hmenu, Menu.unknown]) ?_
    rintro ⟨-, -, hempty | ⟨c, hc, hname⟩⟩
    · exact hne hempty
    · rw [hno c hc] at hname
      cases hname

theorem offer_of_kind_subcommand (h : (n.offer previous fragment).kind = .subcommand) :
    n.offer previous fragment = .found .subcommand (n.childItems fragment) := by
  rcases n.offer_forms previous fragment with
    ⟨flag, needle, -, hmenu⟩ | ⟨-, -, hmenu⟩ | ⟨-, -, -, hmenu⟩ | ⟨-, -, -, -, hmenu⟩
  · rw [hmenu] at h; cases h
  · rw [hmenu] at h; cases h
  · exact hmenu
  · rw [hmenu] at h; cases h

end Node

namespace Tree

/-- **A menu of subcommands and the look-up of subcommands agree, and hidden ones do not leak.** A
request is answered with subcommands exactly when its fragment is no flag and no value, and is empty
or begins the name of a child. The texts of the menu look up, in the order of declaration and each
once, precisely the children that are shown and have a name beginning with the fragment. Where only
hidden children have one the menu is empty, and nothing is reported as unknown. -/
theorem complete_lists_children (t : Tree) {line : Line} {n : Node} (hn : t.CompletesAt line n) :
    ((t.complete line).kind = .subcommand ↔
      startsWith line.fragment "-" = false ∧
        (∀ word, (line.committed t.program).getLast? = some word → n.ExpectsNoValue word) ∧
        (line.fragment = "" ∨ ∃ c ∈ n.children, ∃ rest, line.fragment ++ rest ∈ c.names)) ∧
    ((t.complete line).kind = .subcommand →
      (∃ listed : List Node,
        (t.complete line).inserts.map n.findChild = listed.map some ∧
        listed.Sublist n.children ∧ listed.Nodup ∧
        ∀ c, c ∈ listed ↔
          c ∈ n.children ∧ c.hidden = false ∧ ∃ rest, line.fragment ++ rest ∈ c.names) ∧
      ∀ insert ∈ (t.complete line).inserts, ∀ c, n.findChild insert = some c → c.hidden = false) ∧
    (startsWith line.fragment "-" = false →
      (∀ word, (line.committed t.program).getLast? = some word → n.ExpectsNoValue word) →
      (∃ c ∈ n.children, ∃ rest, line.fragment ++ rest ∈ c.names) →
      (∀ c ∈ n.children, (∃ rest, line.fragment ++ rest ∈ c.names) → c.hidden = true) →
      t.complete line =
        { kind := .subcommand, items := [], note := none, severity := some .info }) := by
  have hcheck : n.check = .ok () := (Node.holds_of_walk hn).check t.faultless
  rw [t.complete_eq_answer, answer_of_walk_ok hn]
  refine ⟨Node.offer_kind_eq_subcommand_iff, ?_, ?_⟩
  · intro hkind
    rw [Node.offer_of_kind_subcommand hkind]
    refine ⟨⟨n.listed line.fragment, Node.map_findChild_childItems hcheck _, ?_, ?_, ?_⟩, ?_⟩
    · exact List.filter_sublist
    · exact (Node.nodup_children hcheck).filter _
    · exact fun c => Node.mem_listed_iff
    · exact fun insert hinsert c => Node.shown_of_findChild_insert hcheck hinsert
  · intro hplain hexpects hsome hall
    have hkind := Node.offer_kind_eq_subcommand_iff.mpr ⟨hplain, hexpects, .inr hsome⟩
    rw [Node.offer_of_kind_subcommand hkind, Node.childItems_of_all_hidden hall]
    rfl

/-- Behind a switch of the root, `ls` is listed as the command `list`, which is what that name looks
up; `__c` begins the name of a hidden command only. -/
theorem sample_complete_lists_children :
    sample.CompletesAt { tokens := ["dot", "--json"], fragment := "ls" } sample.root ∧
      (∃ listed : List Node,
        (sample.complete { tokens := ["dot", "--json"], fragment := "ls" }).inserts.map
          sample.root.findChild = listed.map some ∧ sample.root.children[0] ∈ listed) ∧
      sample.complete { tokens := ["dot", "--json"], fragment := "__c" } =
        .found .subcommand [] := by
  have hls : sample.CompletesAt { tokens := ["dot", "--json"], fragment := "ls" } sample.root := rfl
  have hc : sample.CompletesAt { tokens := ["dot", "--json"], fragment := "__c" } sample.root := rfl
  have hkind :
      (sample.complete { tokens := ["dot", "--json"], fragment := "ls" }).kind = .subcommand := by
    decide +kernel
  have hexpects : ∀ word, some "--json" = some word → sample.root.ExpectsNoValue word := by
    rintro _ ⟨⟩
    exact Node.expectsNoValue_iff.mpr (by decide)
  have hhidden : ∀ c ∈ sample.root.children,
      (∃ rest, "__c" ++ rest ∈ c.names) → c.hidden = true := by
    simp only [← Node.hasNameStarting_iff]
    decide
  refine ⟨hls, ?_, ?_⟩
  · obtain ⟨⟨listed, hfound, -, -, hmem⟩, -⟩ := (sample.complete_lists_children hls).2.1 hkind
    exact ⟨listed, hfound,
      (hmem _).mpr ⟨.head _, rfl, Node.hasNameStarting_iff.mp (by decide)⟩⟩
  · refine (sample.complete_lists_children hc).2.2 (by decide) hexpects ?_ hhidden
    exact ⟨sample.root.children[2], .tail _ (.tail _ (.head _)),
      Node.hasNameStarting_iff.mp (by decide)⟩

end Tree

end Toolbox
