import Toolbox.Proofs.Completion.Answer

/-!
# What a request reads of a tree

A walk goes down the tree along one line of commands, and a menu is made at the last of them. On the
way each command is asked for its flags and for the names of its children, and that is all: of a
child that is not entered nothing is read but its *label*, what stands beside its flags and its
children. So whatever is declared off the line can be declared anew, with any flags and any commands
below, and no request that walks the line can tell.

The line is given by where it ends. `Node.trail` is the place of the command that the walk ends at
or is stopped at (`Node.descend?_trail`), and the commands that the walk enters are those at the
beginnings of that place. What two trees have in common that differ elsewhere is `AgreesAlong`:

> along the trail the two have equal flags and equally labelled children.

One declaration off the trail keeps it (`AgreesAlong.redeclareAt`), hence any number of them do, and
it is enough for the walk (`Node.sameEnd_walk`) and for the menu (`Node.Alike.offer_eq`).
-/

namespace Toolbox

namespace Node

/-! ## Places -/

/-- The place among the children of the one that a word calls. -/
def placeOf (n : Node) (word : String) : Nat :=
  n.children.findIdx fun c => c.names.contains word

/-- The place, below `n`, of the command that the walk along the words ends at or is stopped at. -/
def trail : Node → List String → List Nat
  | _, [] => []
  | n, word :: rest =>
    if looksLikeFlag word then
      if n.awaitsValue word then
        match rest with
        | [] => []
        | _ :: rest => n.trail rest
      else n.trail rest
    else
      match n.findChild word with
      | none => []
      | some child => n.placeOf word :: child.trail rest

/-- The walk along the words enters the command at the place: it comes through it, ends there or is
stopped there. -/
def Enters (n : Node) (words : List String) (place : List Nat) : Prop :=
  place <+: n.trail words

instance (n : Node) (words : List String) (place : List Nat) : Decidable (n.Enters words place) :=
  inferInstanceAs (Decidable (place <+: n.trail words))

theorem findChild_eq_getElem? (n : Node) (word : String) :
    n.findChild word = n.children[n.placeOf word]? :=
  List.find?_eq_getElem?_findIdx

/-- **The trail leads to the command where the walk ends**, or to the one where it is stopped. -/
theorem descend?_trail (n : Node) (words : List String) :
    ∃ m, n.descend? (n.trail words) = some m ∧
      (n.walk words = .ok m ∨
        ∃ word, m.findChild word = none ∧ n.walk words = .error ⟨word, m.name⟩) := by
  fun_induction trail n words with
  | case1 n => exact ⟨n, rfl, .inl rfl⟩
  | case2 n word hf hv => exact ⟨n, rfl, .inl (by simp [walk, hf, hv])⟩
  | case3 n word hf hv value rest ih =>
    rw [walk_cons, if_pos hf, if_pos hv]
    exact ih
  | case4 n word rest hf hv ih =>
    rw [walk_cons, if_pos hf, if_neg hv]
    exact ih
  | case5 n word rest hf hc =>
    rw [walk_cons, if_neg hf, hc]
    exact ⟨n, rfl, .inr ⟨word, hc, rfl⟩⟩
  | case6 n word rest hf c hc ih =>
    rw [walk_cons, if_neg hf, hc, descend?, ← findChild_eq_getElem?, hc]
    exact ih

/-! ## Commands that read alike -/

/-- A command without its flags and its children: what the command above it reads of it. -/
def label (n : Node) : Node :=
  { n with flags := [], children := [] }

/-- What is read of a command that a walk enters is the same of both. -/
structure Alike (n n' : Node) : Prop where
  name : n'.name = n.name
  flags : n'.flags = n.flags
  labels : n'.children.map label = n.children.map label

theorem Alike.refl (n : Node) : n.Alike n := ⟨rfl, rfl, rfl⟩

namespace Alike

variable {n n' : Node}

theorem placeOf_eq (h : n.Alike n') (word : String) : n'.placeOf word = n.placeOf word := by
  have hplace : ∀ m : Node, m.placeOf word =
      (m.children.map label).findIdx fun c => c.names.contains word := by
    intro m
    rw [List.findIdx_map]
    rfl
  rw [hplace, hplace, h.labels]

theorem findChild_eq_none (h : n.Alike n') {word : String} (hnone : n.findChild word = none) :
    n'.findChild word = none := by
  have hlength := congrArg List.length h.labels
  rw [List.length_map, List.length_map] at hlength
  rw [findChild_eq_getElem?, List.getElem?_eq_none_iff] at hnone ⊢
  rw [h.placeOf_eq, hlength]
  exact hnone

theorem awaitsValue_eq (h : n.Alike n') (word : String) :
    n'.awaitsValue word = n.awaitsValue word := by
  rw [awaitsValue, awaitsValue, findFlag, findFlag, h.flags]

theorem childItems_eq (h : n.Alike n') (fragment : String) :
    n'.childItems fragment = n.childItems fragment := by
  have hitems : ∀ m : Node, m.childItems fragment =
      ((m.children.map label).filter fun c => !c.hidden && c.hasNameStarting fragment).map
        asItem := by
    intro m
    rw [List.filter_map, List.map_map]
    rfl
  rw [hitems, hitems, h.labels]

theorem any_hasNameStarting_eq (h : n.Alike n') (fragment : String) :
    n'.children.any (·.hasNameStarting fragment) = n.children.any (·.hasNameStarting fragment) := by
  have hany : ∀ m : Node, m.children.any (·.hasNameStarting fragment) =
      (m.children.map label).any (·.hasNameStarting fragment) := by
    intro m
    rw [List.any_map]
    rfl
  rw [hany, hany, h.labels]

/-- **Commands that read alike are offered alike.** -/
theorem offer_eq (h : n.Alike n') (previous : Option String) (fragment : String) :
    n'.offer previous fragment = n.offer previous fragment := by
  have hfind : ∀ word, n'.findFlag word = n.findFlag word := by
    intro word
    rw [findFlag, findFlag, h.flags]
  have hvalue : n'.valueUnderCursor previous fragment = n.valueUnderCursor previous fragment := by
    simp only [valueUnderCursor, hfind]
  have hvalues : ∀ flag needle, n'.valueItems flag needle = n.valueItems flag needle := by
    intro flag needle
    rw [valueItems, valueItems, hfind]
  have hflags : n'.flagItems fragment = n.flagItems fragment := by
    rw [flagItems, flagItems, h.flags]
  simp only [offer, hvalue, hvalues, hflags, h.childItems_eq, h.any_hasNameStarting_eq, h.name]

/-- A child may change in all but its label. -/
theorem modify (h : n.Alike n') (i : Nat) {g : Node → Node} (hg : ∀ c, (g c).label = c.label) :
    n.Alike { n' with children := n'.children.modify i g } where
  name := h.name
  flags := h.flags
  labels := by
    rw [← h.labels]
    apply List.ext_getElem?
    intro j
    simp only [List.getElem?_map, List.getElem?_modify]
    cases n'.children[j]? with
    | none => rfl
    | some c => by_cases hij : i = j <;> simp [hij, hg]

end Alike

/-- The commands at the beginnings of the trail read alike, one by one. -/
inductive AgreesAlong : List Nat → Node → Node → Prop where
  | last {n n' : Node} : n.Alike n' → AgreesAlong [] n n'
  | down {n n' c c' : Node} {i : Nat} {trail : List Nat} :
      n.Alike n' → n.children[i]? = some c → n'.children[i]? = some c' →
      AgreesAlong trail c c' → AgreesAlong (i :: trail) n n'

theorem AgreesAlong.alike {n n' : Node} {trail : List Nat} (h : AgreesAlong trail n n') :
    n.Alike n' := by
  cases h with
  | last h => exact h
  | down h => exact h

theorem agreesAlong_refl (n : Node) (words : List String) : AgreesAlong (n.trail words) n n := by
  fun_induction trail n words with
  | case1 n => exact .last (.refl n)
  | case2 n => exact .last (.refl n)
  | case3 n _ _ _ _ _ ih => exact ih
  | case4 n _ _ _ _ ih => exact ih
  | case5 n => exact .last (.refl n)
  | case6 n word rest hf c hc ih =>
    rw [findChild_eq_getElem?] at hc
    exact .down (.refl n) hc hc ih

/-! ## The walk -/

/-- Two walks end at commands that read alike, or are stopped by the same word. -/
def SameEnd : Except UnknownWord Node → Except UnknownWord Node → Prop
  | .ok m, .ok m' => m.Alike m'
  | .error e, .error e' => e = e'
  | _, _ => False

/-- **A walk reads nothing off its trail.** -/
theorem sameEnd_walk {n n' : Node} {words : List String} (h : AgreesAlong (n.trail words) n n') :
    SameEnd (n.walk words) (n'.walk words) := by
  fun_induction trail n words generalizing n' with
  | case1 n => exact h.alike
  | case2 n word hf hv =>
    simp only [walk_cons, hf, ↓reduceIte, h.alike.awaitsValue_eq, hv]
    exact h.alike
  | case3 n word hf hv value rest ih =>
    simp only [walk_cons, hf, ↓reduceIte, h.alike.awaitsValue_eq, hv]
    exact ih h
  | case4 n word rest hf hv ih =>
    simp only [walk_cons, hf, ↓reduceIte, h.alike.awaitsValue_eq, hv]
    exact ih h
  | case5 n word rest hf hc =>
    rw [walk_cons, walk_cons, if_neg hf, if_neg hf, hc, h.alike.findChild_eq_none hc, h.alike.name]
    exact rfl
  | case6 n word rest hf c hc ih =>
    cases h with
    | down halike hci hci' hrest =>
      -- the word calls the child at the same place on both sides
      rw [← findChild_eq_getElem?, hc] at hci
      obtain rfl := Option.some.inj hci
      rw [← halike.placeOf_eq, ← findChild_eq_getElem?] at hci'
      rw [walk_cons, walk_cons, if_neg hf, if_neg hf, hc, hci']
      exact ih hrest

/-! ## Declaring anew -/

/-- The tree with other flags and other children for the command at the place. -/
def redeclareAt (flags : List Flag) (children : List Node) : List Nat → Node → Node
  | [], n => { n with flags, children }
  | i :: place, n => { n with children := n.children.modify i (redeclareAt flags children place) }

theorem label_redeclareAt (flags : List Flag) (children : List Node) (place : List Nat) (n : Node) :
    (redeclareAt flags children place n).label = n.label := by
  cases place <;> rfl

/-- **What is declared anew off the trail changes nothing along it.** -/
theorem AgreesAlong.redeclareAt {n n' : Node} {trail place : List Nat}
    (h : AgreesAlong trail n n') (hoff : ¬ place <+: trail) (flags : List Flag)
    (children : List Node) : AgreesAlong trail n (redeclareAt flags children place n') := by
  -- along the trail; a place that leaves it does so at some child, or goes on below its end
  induction h generalizing place with
  | last halike =>
    cases place with
    | nil => exact absurd List.nil_prefix hoff
    | cons j place =>
      exact .last (halike.modify j (label_redeclareAt flags children place))
  | @down n n' c c' i trail halike hc hc' hrest ih =>
    cases place with
    | nil => exact absurd List.nil_prefix hoff
    | cons j place =>
      have hmodified := halike.modify j (label_redeclareAt flags children place)
      by_cases hji : j = i
      · subst hji
        have hbelow : ¬ place <+: trail := by
          intro hpre
          exact hoff (List.cons_prefix_cons.mpr ⟨rfl, hpre⟩)
        refine .down hmodified hc ?_ (ih hbelow)
        simp [Node.redeclareAt, hc']
      · refine .down hmodified hc ?_ hrest
        simp [Node.redeclareAt, hji, hc']

end Node

/-- Other flags and other children for the command at a place. What else the command is declared
with stays. -/
structure Redeclaration where
  place : List Nat
  flags : List Flag
  children : List Node

namespace Node

/-- The tree after one redeclaration after the other. -/
def redeclare (n : Node) (changes : List Redeclaration) : Node :=
  changes.foldl (fun n change => redeclareAt change.flags change.children change.place n) n

theorem AgreesAlong.redeclare {n n' : Node} {trail : List Nat} {changes : List Redeclaration}
    (h : AgreesAlong trail n n') (hoff : ∀ change ∈ changes, ¬ change.place <+: trail) :
    AgreesAlong trail n (n'.redeclare changes) := by
  induction changes generalizing n' with
  | nil => exact h
  | cons change rest ih =>
    obtain ⟨hfirst, hlater⟩ := List.forall_mem_cons.mp hoff
    exact ih (h.redeclareAt hfirst change.flags change.children) hlater

end Node

namespace Tree

/-- Trees that agree along the trail of the words give them one menu, found or refused. -/
theorem answer_eq_of_agreesAlong {t t' : Tree} {words : List String}
    (h : Node.AgreesAlong (t.root.trail words) t.root t'.root) (fragment : String) :
    t'.answer words fragment = t.answer words fragment := by
  have hend := Node.sameEnd_walk h
  cases hwalk : t.root.walk words with
  | error e =>
    cases hwalk' : t'.root.walk words with
    | error e' =>
      rw [hwalk, hwalk'] at hend
      obtain rfl : e = e' := hend
      rw [answer_of_walk_error hwalk, answer_of_walk_error hwalk']
    | ok m' => rw [hwalk, hwalk'] at hend; cases hend
  | ok m =>
    cases hwalk' : t'.root.walk words with
    | error e' => rw [hwalk, hwalk'] at hend; cases hend
    | ok m' =>
      rw [hwalk, hwalk'] at hend
      have halike : m.Alike m' := hend
      rw [answer_of_walk_ok hwalk, answer_of_walk_ok hwalk', halike.offer_eq]

/-- **Completion is local to the line that is walked.** However many commands that the walk does not
enter are declared anew, the whole menu stays as it is. -/
theorem complete_eq_of_redeclared (t t' : Tree) (line : Line) {changes : List Redeclaration}
    (ht' : t'.root = t.root.redeclare changes)
    (hoff : ∀ change ∈ changes,
      ¬ t.root.Enters (line.committed t.program) change.place) :
    t'.complete line = t.complete line := by
  have hagree : Node.AgreesAlong (t.root.trail (line.committed t.program)) t.root t'.root := by
    rw [ht']
    exact (t.root.agreesAlong_refl _).redeclare hoff
  have hprogram : t'.program = t.program := hagree.alike.name
  rw [complete_eq_answer, complete_eq_answer, hprogram, answer_eq_of_agreesAlong hagree]

/-- A command beside `list` and one below it, declared anew: `init` without its flag and with
another child, and `templates` with a flag and a child. -/
def sampleChanges : List Redeclaration :=
  [⟨[1], [], [{ name := "pallet" }]⟩,
   ⟨[0, 0], [Flag.ofSteps [.long "tall"]], [{ name := "tiny" }]⟩]

def redeclaredSample : Tree where
  root := sample.root.redeclare sampleChanges
  faultless := rfl

/-- Behind `ls` neither shows. -/
theorem sample_complete_eq_of_redeclared :
    (∀ change ∈ sampleChanges, ¬ sample.root.Enters ["ls"] change.place) ∧
      redeclaredSample.complete { tokens := ["dot", "ls"], fragment := "t" } =
        sample.complete { tokens := ["dot", "ls"], fragment := "t" } := by
  have hoff : ∀ change ∈ sampleChanges, ¬ sample.root.Enters ["ls"] change.place := by
    decide +kernel
  exact ⟨hoff, sample.complete_eq_of_redeclared redeclaredSample
    { tokens := ["dot", "ls"], fragment := "t" } rfl hoff⟩

end Tree

end Toolbox
