import Toolbox.Proofs.Completion.Grammar
import Toolbox.Proofs.Completion.Answer
import Toolbox.Proofs.Tree.Flags
import Toolbox.Surface.Outline

/-!
# Menus mirror the declared commands

A command that is declared is turned into a completion tree, checked and then asked for menus. This
file takes the three together: behind any chain of subcommands, each called by any of its names, the
menus are read off the declaration of the command that the chain leads to, with no look at the tree
in between (`Command.complete_mirrors`).

The tree under a command is its outline at every place but one: the root has one child more, the
marker for the completion requests themselves. `Mirrors` is what an outline and a root with its
marker have in common. It is handed down from a node to its children (`Mirrors.findChild`), and each
of the three menus is derived from it alone, so that the marker is dealt with once
(`mirrors_withMarker`).

What is declared and not offered is of three sorts. Hidden subcommands stay in the tree, because they
can be called; hidden parameters and hidden values are left out of it.
-/

namespace Toolbox.Surface

open Text

/-! ## What is declared -/

/-- The spellings of a parameter: its letter behind a dash, then its name behind two, without the
dashes that the name is declared with. -/
def Parameter.spellings (p : Parameter) : List String :=
  (p.short.map fun c => String.ofList ['-', c]).toList ++
    (p.long.map fun name => "--" ++ dropDashes name).toList

namespace Command

/-- The parameters that are offered: they go by a name and are not hidden. -/
def offeredOptions (c : Command) : List Parameter :=
  c.parameters.filter fun p => !p.isPositional && !p.hidden

def offeredSubcommands (c : Command) : List Command :=
  c.subcommands.filter (!·.hidden)

/-- A command as it is offered: by its name, with what it is about in plain text unless that is
empty. -/
def item (c : Command) : Candidate :=
  let about := Control.plain c.about
  { insert := c.name, display := if about = "" then none else some about }

/-- The first parameter offered under this spelling. -/
def FirstOption (c : Command) (spelling : String) (p : Parameter) : Prop :=
  ∃ before after, c.offeredOptions = before ++ p :: after ∧ spelling ∈ p.spellings ∧
    ∀ q ∈ before, spelling ∉ q.spellings

/-- The words call one subcommand below the other, each by its name or an alias. -/
inductive Calls : Command → List String → Command → Prop where
  | here {c : Command} : Calls c [] c
  | call {c s d : Command} {word : String} {rest : List String} :
      s ∈ c.subcommands → word ∈ s.names → word ≠ "" → looksLikeFlag word = false →
      Calls s rest d → Calls c (word :: rest) d

end Command

/-! ## Flags of parameters -/

namespace Parameter

theorem toFlag_eq (p : Parameter) :
    p.toFlag =
      { long := p.long.map fun name => "--" ++ dropDashes name
        short := p.short.map fun c => String.ofList ['-', c]
        takesValue := p.takesValues
        choices :=
          if p.takesValues ∧ p.values.shown ≠ [] then some p.values.shown.eraseDups else none
        help := p.help.map Control.plain } := by
  rw [toFlag]
  cases p.long <;> cases p.short <;> cases p.help <;> cases p.takesValues <;>
    cases p.values.shown <;> rfl

theorem spellings_toFlag (p : Parameter) : p.toFlag.spellings = p.spellings := by
  rw [toFlag_eq, Flag.spellings, spellings]

theorem help_toFlag (p : Parameter) : p.toFlag.help = p.help.map Control.plain := by
  rw [toFlag_eq]

theorem takesValue_toFlag (p : Parameter) : p.toFlag.takesValue = p.takesValues := by
  rw [toFlag_eq]

/-- A parameter none of whose values are shown becomes a flag for any value: there is nothing to
offer for either. -/
theorem choices_toFlag {p : Parameter} (h : p.takesValues = true) :
    p.toFlag.choices.getD [] = p.values.shown.eraseDups := by
  rw [toFlag_eq]
  by_cases hshown : p.values.shown = []
  · simp [hshown]
  · simp [h, hshown]

theorem looksLikeFlag_of_mem_spellings {p : Parameter} {s : String} (h : s ∈ p.spellings) :
    looksLikeFlag s = true := by
  simp only [spellings, List.mem_append, Option.mem_toList, Option.map_eq_some_iff] at h
  rcases h with ⟨c, -, rfl⟩ | ⟨name, -, rfl⟩
  · exact Flag.looksLikeFlag_short c
  · exact Flag.looksLikeFlag_long _

end Parameter

/-! ## The outline -/

theorem outlineAll_eq_map (commands : List Command) :
    outlineAll commands = commands.map Command.outline := by
  induction commands with
  | nil => rfl
  | cons c rest ih => rw [outlineAll, ih, List.map_cons]

namespace Command

variable (c : Command)

theorem name_outline : c.outline.name = c.name := by
  obtain ⟨profile, subcommands⟩ := c
  rw [outline]

theorem names_outline : c.outline.names = c.names := by
  obtain ⟨profile, subcommands⟩ := c
  rw [outline]
  rfl

theorem hidden_outline : c.outline.hidden = c.hidden := by
  obtain ⟨profile, subcommands⟩ := c
  rw [outline]

theorem flags_outline : c.outline.flags = c.offeredOptions.map Parameter.toFlag := by
  obtain ⟨profile, subcommands⟩ := c
  rw [outline]
  rfl

theorem children_outline : c.outline.children = c.subcommands.map outline := by
  obtain ⟨profile, subcommands⟩ := c
  rw [outline]
  exact outlineAll_eq_map subcommands

theorem asItem_outline : c.outline.asItem = c.item := by
  obtain ⟨profile, subcommands⟩ := c
  rw [outline]
  rfl

end Command

/-! ## What a node has of a command -/

/-- A node stands for a command: it has the flags of the parameters offered, the outlines of all
subcommands below it, and shows those that are not hidden and no others. -/
structure Mirrors (n : Node) (c : Command) : Prop where
  flags : n.flags = c.offeredOptions.map Parameter.toFlag
  children : ∀ s ∈ c.subcommands, s.outline ∈ n.children
  shown : n.children.filter (!·.hidden) = c.offeredSubcommands.map Command.outline

theorem mirrors_outline (c : Command) : Mirrors c.outline c where
  flags := c.flags_outline
  children s hs := by
    rw [c.children_outline]
    exact List.mem_map_of_mem hs
  shown := by
    rw [c.children_outline, List.filter_map, Command.offeredSubcommands]
    have hhidden : (fun n : Node => !n.hidden) ∘ Command.outline = fun s => !s.hidden := by
      funext s
      rw [Function.comp_apply, s.hidden_outline]
    rw [hhidden]

theorem mirrors_withMarker (c : Command) : Mirrors (withMarker c.outline) c where
  flags := c.flags_outline
  children s hs := List.mem_append_left _ ((mirrors_outline c).children s hs)
  shown := by
    rw [withMarker, List.filter_append, (mirrors_outline c).shown]
    simp

namespace Mirrors

variable {n : Node} {c : Command}

/-- A subcommand is found by any of its names. -/
theorem findChild (h : Mirrors n c) (hn : n.check = .ok ()) {s : Command} {word : String}
    (hs : s ∈ c.subcommands) (hword : word ∈ s.names) : n.findChild word = some s.outline := by
  rw [Node.findChild_eq_some_iff hn, s.names_outline]
  exact ⟨h.children s hs, hword⟩

theorem firstFlag (h : Mirrors n c) {spelling : String} {p : Parameter}
    (hp : c.FirstOption spelling p) : n.FirstFlag spelling p.toFlag := by
  obtain ⟨before, after, hoptions, hspelled, hbefore⟩ := hp
  refine ⟨before.map Parameter.toFlag, after.map Parameter.toFlag, ?_, ?_, ?_⟩
  · rw [h.flags, hoptions, List.map_append, List.map_cons]
  · rw [p.spellings_toFlag]
    exact hspelled
  · intro f hf
    obtain ⟨q, hq, rfl⟩ := List.mem_map.mp hf
    rw [q.spellings_toFlag]
    exact hbefore q hq

/-- **Calling subcommands leads to a node that stands for the last of them.** -/
theorem stepThrough (h : Mirrors n c) (hn : n.check = .ok ()) {words : List String} {d : Command}
    (hcalls : c.Calls words d) :
    ∃ m, Stand.stepThrough ⟨n, false⟩ words = .ok ⟨m, false⟩ ∧ Mirrors m d := by
  -- from the second node on the nodes are outlines, so the induction is over all that stand for `c`
  induction hcalls generalizing n with
  | here => exact ⟨n, rfl, h⟩
  | @call c s d word rest hs hword hne hf _ ih =>
    have hchild := h.findChild hn hs hword
    have hcheck := ((Node.check_eq_ok_iff.mp hn).2.1 _ (h.children s hs)).2
    obtain ⟨m, hm, hmirrors⟩ := ih (mirrors_outline s) hcheck
    refine ⟨m, ?_, hmirrors⟩
    rw [Stand.stepThrough, Stand.step_child hf hchild]
    exact hm

/-! ## The three menus at a node -/

theorem childItems (h : Mirrors n c) :
    n.childItems "" = c.offeredSubcommands.map Command.item := by
  have hall : ∀ m : Node, m.hasNameStarting "" = true := by
    intro m
    exact Node.hasNameStarting_iff.mpr ⟨m.name, by simp [Node.names]⟩
  have hitem : Node.asItem ∘ Command.outline = Command.item := funext Command.asItem_outline
  rw [Node.childItems]
  simp only [hall, Bool.and_true]
  rw [h.shown, List.map_map, hitem]

theorem flagItems (h : Mirrors n c) :
    n.flagItems "-" = c.offeredOptions.flatMap fun p =>
      p.spellings.map fun s => { insert := s, display := p.help.map Control.plain } := by
  rw [Node.flagItems, h.flags, List.flatMap_map]
  refine List.flatMap_congr ?_
  intro p _
  have hdash : p.spellings.filter (startsWith · "-") = p.spellings :=
    List.filter_eq_self.mpr fun s hs => Parameter.looksLikeFlag_of_mem_spellings hs
  rw [p.spellings_toFlag, p.help_toFlag, hdash]

theorem valueItems (h : Mirrors n c) {spelling : String} {p : Parameter}
    (hp : c.FirstOption spelling p) (htakes : p.takesValues = true) :
    n.valueItems spelling "" = p.values.shown.eraseDups.map fun v => { insert := v } := by
  rw [Node.valueItems, Node.findFlag_eq_some_iff.mpr (h.firstFlag hp)]
  simp only [p.takesValue_toFlag, htakes, ↓reduceIte, Parameter.choices_toFlag htakes,
    startsWith_empty, List.filter_true]

theorem offer_blank (h : Mirrors n c) {previous : Option String}
    (hp : ∀ word, previous = some word → looksLikeFlag word = false) :
    n.offer previous "" = .found .subcommand (c.offeredSubcommands.map Command.item) := by
  have hblank : looksLikeFlag "" = false := by decide
  rw [Node.offer_of_name (Node.valueUnderCursor_eq_none hp hblank) hblank (.inl rfl), h.childItems]

theorem offer_dash (h : Mirrors n c) {previous : Option String}
    (hp : ∀ word, previous = some word → looksLikeFlag word = false) :
    n.offer previous "-" = .found .flag (c.offeredOptions.flatMap fun p =>
      p.spellings.map fun s => { insert := s, display := p.help.map Control.plain }) := by
  have hvalue : n.valueUnderCursor previous "-" = none := by
    cases hv : n.valueUnderCursor previous "-" with
    | none => rfl
    | some request =>
      have hinline : inlineValue "-" = none := by decide
      obtain ⟨hprevious, hf, -⟩ := (Node.valueUnderCursor_eq_some_iff hinline).mp hv
      rw [hp _ hprevious] at hf
      cases hf
  rw [Node.offer_of_flag hvalue (by decide), h.flagItems]

theorem offer_spelling (h : Mirrors n c) (hn : n.check = .ok ()) {spelling : String}
    {p : Parameter} (hp : c.FirstOption spelling p) (htakes : p.takesValues = true) :
    n.offer (some spelling) "" =
      .found .value (p.values.shown.eraseDups.map fun v => { insert := v }) := by
  have hfound := Node.findFlag_eq_some_iff.mpr (h.firstFlag hp)
  obtain ⟨hmem, hspelled⟩ := Node.findFlag_mem hfound
  have hdash : looksLikeFlag spelling = true := by
    rw [p.spellings_toFlag] at hspelled
    exact Parameter.looksLikeFlag_of_mem_spellings hspelled
  have hno := Flag.holds_eq_of_check ((Node.check_eq_ok_iff.mp hn).1 _ hmem) hspelled hdash
  have hall : (n.findFlag spelling).all (·.takesValue) = true := by
    rw [hfound, Option.all_some, p.takesValue_toFlag, htakes]
  have hinline : inlineValue "" = none := by decide
  rw [Node.offer_of_value ((Node.valueUnderCursor_eq_some_iff hinline).mpr
    ⟨rfl, hdash, hno, hall, rfl⟩)]
  exact congrArg _ (h.valueItems hp htakes)

end Mirrors

/-! ## The menus of a declared command -/

namespace Command

theorem Calls.plain {c d : Command} {words : List String} (h : c.Calls words d) :
    ∀ word ∈ words, word ≠ "" ∧ looksLikeFlag word = false := by
  induction h with
  | here => simp
  | call _ _ hne hf _ ih =>
    intro word hm
    rcases List.mem_cons.mp hm with rfl | hm
    · exact ⟨hne, hf⟩
    · exact ih word hm

theorem Calls.ne_empty {c d : Command} {words : List String} (h : c.Calls words d) :
    ∀ word ∈ words, word ≠ "" := by
  intro word hm
  exact (h.plain word hm).1

theorem Calls.last_plain {c d : Command} {words : List String} (h : c.Calls words d) :
    ∀ word, words.getLast? = some word → looksLikeFlag word = false := by
  intro word hm
  exact (h.plain word (List.mem_of_getLast? hm)).2

/-- At the root the marker's name is not offered: no other command there can have it. -/
theorem completeName_notMem_root {c : Command} (h : (withMarker c.outline).check = .ok ()) :
    completeName ∉ c.offeredSubcommands.map (·.name) := by
  intro hm
  obtain ⟨s, hs, hname⟩ := List.mem_map.mp hm
  obtain ⟨hs, hshown⟩ := List.mem_filter.mp hs
  have hmarker : { name := completeName, hidden := true } ∈ (withMarker c.outline).children :=
    List.mem_append_right _ List.mem_cons_self
  have hword : completeName ∈ s.outline.names := by
    rw [s.names_outline, ← hname]
    exact List.mem_cons_self
  have heq := Node.eq_of_mem_names (Node.check_eq_ok_iff.mp h).2.2
    ((mirrors_withMarker c).children s hs) hmarker hword List.mem_cons_self
  rw [← s.hidden_outline, heq] at hshown
  cases hshown

section Menus

variable {c d : Command} {t : Tree} {words : List String}

theorem root_of_tree (h : c.tree = .ok t) : t.root = withMarker c.outline :=
  Tree.ofRoot_eq_ok h

theorem program_of_tree (h : c.tree = .ok t) : t.program = c.name := by
  rw [Tree.program, root_of_tree h]
  exact c.name_outline

/-- The walk along a chain of subcommands ends at a node that stands for the last of them. -/
theorem exists_mirrors (h : c.tree = .ok t) (hcalls : c.Calls words d) :
    ∃ m, Stand.stepThrough ⟨t.root, false⟩ words = .ok ⟨m, false⟩ ∧ Mirrors m d := by
  have hroot : Mirrors t.root c := by
    rw [root_of_tree h]
    exact mirrors_withMarker c
  exact hroot.stepThrough t.faultless hcalls

theorem complete_blank (h : c.tree = .ok t) (hcalls : c.Calls words d) :
    t.complete { tokens := c.name :: words, fragment := "" } =
      .found .subcommand (d.offeredSubcommands.map item) := by
  obtain ⟨m, hread, hm⟩ := exists_mirrors h hcalls
  rw [← program_of_tree h, t.complete_committed hcalls.ne_empty,
    Tree.answer_of_walk_ok (Node.walk_of_stepThrough hread), hm.offer_blank hcalls.last_plain]

theorem complete_dash (h : c.tree = .ok t) (hcalls : c.Calls words d) :
    t.complete { tokens := c.name :: words, fragment := "-" } =
      .found .flag (d.offeredOptions.flatMap fun p =>
        p.spellings.map fun s => { insert := s, display := p.help.map Control.plain }) := by
  obtain ⟨m, hread, hm⟩ := exists_mirrors h hcalls
  have hdash : words.getLast? ≠ some "-" := by
    intro he
    exact absurd (hcalls.last_plain _ he) (by decide)
  rw [← program_of_tree h, t.complete_unechoed hcalls.ne_empty hdash,
    Tree.answer_of_walk_ok (Node.walk_of_stepThrough hread), hm.offer_dash hcalls.last_plain]

theorem complete_spelling (h : c.tree = .ok t) (hcalls : c.Calls words d) {spelling : String}
    {p : Parameter} (hp : d.FirstOption spelling p) (htakes : p.takesValues = true) :
    t.complete { tokens := c.name :: (words ++ [spelling]), fragment := "" } =
      .found .value (p.values.shown.eraseDups.map fun v => { insert := v }) := by
  obtain ⟨m, hread, hm⟩ := exists_mirrors h hcalls
  obtain ⟨before, after, -, hspelled, -⟩ := id hp
  have hf := Parameter.looksLikeFlag_of_mem_spellings hspelled
  have hwords : ∀ word ∈ words ++ [spelling], word ≠ "" := by
    intro word hw
    rcases List.mem_append.mp hw with hw | hw
    · exact hcalls.ne_empty word hw
    · rw [List.mem_singleton.mp hw]
      exact ne_empty_of_looksLikeFlag hf
  have hread' : Stand.stepThrough ⟨t.root, false⟩ (words ++ [spelling]) =
      .ok ⟨m, m.awaitsValue spelling⟩ := by
    rw [Stand.stepThrough_snoc hread, Stand.step_flag hf]
  have hcheck := (Stand.holds_of_stepThrough hread).check t.faultless
  rw [← program_of_tree h, t.complete_committed hwords,
    Tree.answer_of_walk_ok (Node.walk_of_stepThrough hread'), List.getLast?_concat,
    hm.offer_spelling hcheck hp htakes]

end Menus

/-- **Completion mirrors the declaration.** Behind a chain of subcommands, each called by any of its
names, a blank fragment is offered the subcommands that are not hidden, a dash the spellings of the
parameters that are not hidden, and a fragment behind a spelling that takes a value the values of
its parameter that are not hidden: each time all of them, once, and in the order of declaration. The
marker for completion requests is not among them, and at the root nothing of its name is. -/
theorem complete_mirrors {c d : Command} {t : Tree} {words : List String} (h : c.tree = .ok t)
    (hcalls : c.Calls words d) :
    t.complete { tokens := c.name :: words, fragment := "" } =
        .found .subcommand (d.offeredSubcommands.map item) ∧
      (words = [] → completeName ∉ (t.complete
        { tokens := c.name :: words, fragment := "" }).inserts) ∧
      t.complete { tokens := c.name :: words, fragment := "-" } =
        .found .flag (d.offeredOptions.flatMap fun p =>
          p.spellings.map fun s => { insert := s, display := p.help.map Control.plain }) ∧
      ∀ spelling p, d.FirstOption spelling p → p.takesValues = true →
        p.values.shown.eraseDups.Nodup ∧
        t.complete { tokens := c.name :: (words ++ [spelling]), fragment := "" } =
          .found .value (p.values.shown.eraseDups.map fun v => { insert := v }) := by
  refine ⟨complete_blank h hcalls, ?_, complete_dash h hcalls, ?_⟩
  · rintro rfl
    cases hcalls
    rw [complete_blank h .here, Menu.inserts, Menu.found, List.map_map]
    exact completeName_notMem_root (root_of_tree h ▸ t.faultless)
  · intro spelling p hp htakes
    exact ⟨nodup_eraseDups _, complete_spelling h hcalls hp htakes⟩

/-- A command with all that is declared and not offered: an alias, a parameter, a value and a
subcommand that are hidden. One of its subcommands has the name of the marker. -/
def sampleList : Command :=
  { name := "list", about := "Discover things"
    aliases := [{ name := "ls" }, { name := "dir", hidden := true }]
    parameters := [
      { id := "style", long := some "format", hidden := true },
      { id := "format", long := some "format", short := some 'f', help := some "Output format"
        values := .choice [{ name := "json" }, { name := "xml", hidden := true }, { name := "csv" },
          { name := "json" }] },
      { id := "pattern" }]
    subcommands := [
      { name := "templates", about := "List templates" },
      { name := "drafts", hidden := true },
      { name := completeName }] }

def sample : Command :=
  { name := "dot", subcommands := [sampleList] }

theorem sample_tree :
    sample.tree = .ok ⟨withMarker sample.outline, by decide +kernel⟩ :=
  Tree.ofRoot_of_check _

theorem sample_calls {word : String} (hword : word ∈ sampleList.names) (hne : word ≠ "")
    (hf : looksLikeFlag word = false) : sample.Calls [word] sampleList :=
  .call List.mem_cons_self hword hne hf .here

/-- The menus behind `dot dir`, which calls `list` by its hidden alias. -/
theorem sample_complete_mirrors :
    ∃ t, sample.tree = .ok t ∧ sample.Calls ["dir"] sampleList ∧
      t.complete { tokens := ["dot", "dir"], fragment := "" } = .found .subcommand
        [{ insert := "templates", display := some "List templates" }, { insert := "__complete" }] ∧
      t.complete { tokens := ["dot", "dir"], fragment := "-" } = .found .flag
        [{ insert := "-f", display := some "Output format" },
          { insert := "--format", display := some "Output format" }] ∧
      t.complete { tokens := ["dot", "dir", "-f"], fragment := "" } = .found .value
        [{ insert := "json" }, { insert := "csv" }] := by
  have hcalls : sample.Calls ["dir"] sampleList :=
    sample_calls (by decide) (by decide) (by decide)
  obtain ⟨hblank, -, hdash, hvalue⟩ := complete_mirrors sample_tree hcalls
  refine ⟨_, sample_tree, hcalls, hblank.trans (by decide +kernel),
    hdash.trans (by decide +kernel), ?_⟩
  obtain ⟨-, hmenu⟩ := hvalue "-f" _ ⟨[], [], rfl, by decide, by simp⟩ rfl
  exact hmenu.trans (by decide +kernel)

/-- A subcommand below the root may have the name of the marker, and is offered like any other. -/
theorem sample_offers_complete :
    ∃ t, sample.tree = .ok t ∧ sample.Calls ["list"] sampleList ∧
      completeName ∈ (t.complete { tokens := ["dot", "list"], fragment := "" }).inserts := by
  refine ⟨_, sample_tree, sample_calls (by decide) (by decide) (by decide), ?_⟩
  decide +kernel

end Command

end Toolbox.Surface
