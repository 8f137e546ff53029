import Mathlib.Data.List.TakeWhile
import Toolbox.Program.Run
import Toolbox.Proofs.Completion.Answer
import Toolbox.Proofs.Completion.Decoding
import Toolbox.Proofs.Settings.Loading
import Toolbox.Proofs.Tree.Accepted

/-!
# Completion requests always succeed

A shell asks for completions at every key, and what it gets must not hang on the user's settings:
they are for the looks of the menu. This file follows a request through the whole program, for any
arguments and any surroundings. It ends with exit code 0, what is offered depends on the arguments
alone, and the settings decide no more than which lines and remarks stand around it
(`Program.run_complete`).

The three parts of the argument are apart. A reader of responses finds the texts to insert without
a look at the style (`Response.readInserts_encode`); the style that settings ask for is read off the
tags and remarks of the response (`Response.follows_encode`); and a file from which no settings can be
read asks for the style that no file asks for (`Program.menuStyle_of_unreadable`), which is a fact
about two defaults that are written down in two places.
-/

namespace Toolbox

open Text

theorem Text.trim_eq_empty_iff {s : String} :
    trim s = "" ↔ ∀ c ∈ s.toList, isBlank c = true := by
  rw [trim, ← String.toList_inj, String.toList_ofList, String.toList_empty, dropBlankEnd,
    List.reverse_eq_nil_iff, List.dropWhile_eq_nil_iff]
  constructor
  · intro h c hc
    rw [← List.takeWhile_append_dropWhile (p := isBlank) (l := s.toList), List.mem_append] at hc
    rcases hc with hc | hc
    · exact List.mem_takeWhile_imp hc
    · exact h c (List.mem_reverse.mpr hc)
  · intro h c hc
    exact h c ((List.dropWhile_sublist _).subset (List.mem_reverse.mp hc))

namespace Response

/-! ## Reading a response without knowing its style -/

/-- The texts to insert: of each line with a separator in it what stands before the first. -/
def readInserts (text : String) : List String :=
  (splitLines text).filterMap fun line => (cutAt '\x1f' line).map (·.1)

/-- The names and bodies of the lines without a separator that have a tab. -/
def readTags (text : String) : List (String × String) :=
  ((splitLines text).filter (!isCandidate ·)).filterMap readTag

/-- What the candidates' lines show beside the texts. -/
def readRemarks (text : String) : List String :=
  (splitLines text).filterMap fun line => (readCandidate line).map (·.2)

theorem cutAt_of_mem_tagTexts {style : ResponseStyle} {m : Menu} {line : String}
    (h : line ∈ tagTexts style m) : cutAt '\x1f' line = none :=
  cutAt_eq_none_iff.mpr (isCandidate_of_mem_tagTexts h)

theorem readInserts_encode (style : ResponseStyle) (m : Menu) :
    readInserts (m.encode style) = m.inserts.map flat := by
  have htags :
      (tagTexts style m).filterMap (fun line => (cutAt '\x1f' line).map (·.1)) = [] := by
    rw [List.filterMap_eq_nil_iff]
    intro line hline
    rw [cutAt_of_mem_tagTexts hline, Option.map_none]
  have hcandidate : ∀ c : Candidate, (cutAt '\x1f'
      (candidateLine style (width m) c).text).map (·.1) = some (flat c.insert) := by
    intro c
    obtain ⟨n, hcut⟩ := cutAt_text_candidateLine style (width m) c
    rw [hcut, Option.map_some]
  rw [readInserts, splitLines_encode, List.filterMap_append, List.filterMap_append, htags,
    candidateTexts, List.filterMap_map, Menu.inserts, List.map_map]
  simp only [Function.comp_def, hcandidate]
  simp [cutAt, cutList]

theorem readTags_encode (style : ResponseStyle) (m : Menu) :
    readTags (m.encode style) = tags style m := by
  have hread : (tagTexts style m).filterMap readTag = tags style m := by
    rw [tagTexts, List.filterMap_map]
    refine (List.filterMap_eq_map_iff_forall_eq_some.mpr ?_).trans (List.map_id _)
    intro p hp
    rw [Function.comp_apply, readTag_tagText (text_of_mem_tags hp).2.1]
    rfl
  have hnone : readTag "" = none := by decide
  rw [readTags, filter_not_isCandidate_splitLines, List.filterMap_append, hread]
  simp [hnone]

theorem readRemarks_encode (style : ResponseStyle) (m : Menu) :
    readRemarks (m.encode style) = m.items.map (remark style) := by
  have htags : (tagTexts style m).filterMap (fun line => (readCandidate line).map (·.2)) = [] := by
    rw [List.filterMap_eq_nil_iff]
    intro line hline
    rw [readCandidate, cutAt_of_mem_tagTexts hline, Option.map_none]
  have hnone : readCandidate "" = none := by decide
  rw [readRemarks, splitLines_encode, List.filterMap_append, List.filterMap_append, htags,
    candidateTexts, List.filterMap_map]
  simp only [Function.comp_def, readCandidate_text]
  simp [hnone]

/-! ## What settings ask for -/

/-- A response to a menu is as the settings ask: the caption is there unless it is blank, the colour
if colours are asked for, and descriptions beside the candidates if they are. -/
structure Follows (own : MenuSettings) (m : Menu) (text : String) : Prop where
  header : ∀ body, ("HEADER", body) ∈ readTags text ↔
    (∃ c ∈ own.header.toList, isBlank c = false) ∧
      ∃ caption, Flattens own.header caption ∧ body = " " ++ caption
  color : (∃ body, ("COLOR", body) ∈ readTags text) ↔ own.color = true
  remarks : List.Forall₂ (RemarkOf own.descriptions) m.items (readRemarks text)

theorem header_mem_tags {style : ResponseStyle} {m : Menu} {body : String} :
    ("HEADER", body) ∈ tags style m ↔ ∃ header, style.header = some header ∧
      " " ++ flat header = body := by
  simp [tags, colorTags, noteTags, headerTags]

theorem color_mem_tags {style : ResponseStyle} {m : Menu} :
    (∃ body, ("COLOR", body) ∈ tags style m) ↔ style.color = true ∧ m.severity ≠ none := by
  cases hcolor : style.color <;> cases hs : m.severity <;>
    simp [tags, colorTags, noteTags, headerTags, hcolor, hs]

theorem style_header (own : MenuSettings) {header : String} :
    own.style.header = some header ↔
      (∃ c ∈ own.header.toList, isBlank c = false) ∧ own.header = header := by
  have hblank : trim own.header = "" ↔ ¬ ∃ c ∈ own.header.toList, isBlank c = false := by
    rw [trim_eq_empty_iff]
    simp
  rw [MenuSettings.style]
  by_cases h : trim own.header = ""
  · simp only [h, ↓reduceIte, reduceCtorEq, hblank.mp h, false_and]
  · simp only [h, ↓reduceIte, Option.some.injEq, not_not.mp (mt hblank.mpr h), true_and]

/-- **A response in the style of some settings is as they ask**, if there is a severity to give a
colour for. -/
theorem follows_encode (own : MenuSettings) {m : Menu} (hs : m.severity ≠ none) :
    Follows own m (m.encode own.style) where
  header body := by
    rw [readTags_encode, header_mem_tags]
    simp only [style_header, flattens_iff]
    constructor
    · rintro ⟨_, ⟨hshown, rfl⟩, rfl⟩
      exact ⟨hshown, _, rfl, rfl⟩
    · rintro ⟨hshown, _, rfl, rfl⟩
      exact ⟨_, ⟨hshown, rfl⟩, rfl⟩
  color := by
    rw [readTags_encode, color_mem_tags]
    exact and_iff_left hs
  remarks := by
    rw [readRemarks_encode, List.forall₂_map_right_iff, List.forall₂_same]
    intro c _
    exact remarkOf_remark own.style c

theorem forall₂_flattens_readInserts (style : ResponseStyle) (m : Menu) :
    List.Forall₂ Flattens m.inserts (readInserts (m.encode style)) := by
  rw [readInserts_encode, List.forall₂_map_right_iff, List.forall₂_same]
  intro insert _
  exact flattens_flat insert

end Response

theorem Node.severity_offer_ne_none (n : Node) (previous : Option String) (fragment : String) :
    (n.offer previous fragment).severity ≠ none := by
  rcases n.offer_forms previous fragment with
    ⟨flag, needle, -, hmenu⟩ | ⟨-, -, hmenu⟩ | ⟨-, -, -, hmenu⟩ | ⟨-, -, -, -, hmenu⟩ <;>
  · rw [hmenu]
    exact Option.some_ne_none _

theorem Tree.severity_complete_ne_none (t : Tree) (line : Line) :
    (t.complete line).severity ≠ none := by
  rw [complete_eq_answer, answer]
  split
  · exact Option.some_ne_none _
  · exact Node.severity_offer_ne_none _ _ _

namespace Program

open Surface

/-! ## The program -/

theorem dot_accepted : (withMarker dot.forCompletion.outline).check = .ok () := by
  decide +kernel

/-- Without a file there are the default settings, wherever the file would be looked for. -/
theorem load_without_file (e : Environment) :
    Settings.load { e with file := fun _ => .missing } = .ok {} := by
  rw [Settings.load]
  split <;> rfl

theorem menuStyle_without_file (e : Environment) :
    menuStyle { e with file := fun _ => .missing } = ({} : MenuSettings).style := by
  rw [menuStyle, load_without_file]

/-- A file from which no settings can be read looks as if there were none. -/
theorem menuStyle_of_unreadable {e : Environment}
    (h : ∀ path, Settings.LiesAt e path →
      e.file path = .missing ∨ Settings.Unreadable (e.file path)) :
    menuStyle e = ({} : MenuSettings).style := by
  rw [menuStyle]
  by_cases hplace : ∃ path, Settings.LiesAt e path
  · obtain ⟨path, hpath⟩ := hplace
    rw [Settings.load_of_liesAt hpath]
    rcases h path hpath with hmissing | hunreadable
    · rw [hmissing]
      rfl
    · obtain ⟨why, hwhy⟩ := Settings.exists_ofFile_eq_error_iff.mpr hunreadable
      have hdefaults : ({} : ResponseStyle) = ({} : MenuSettings).style := by decide
      rw [hwhy]
      exact hdefaults
  · rw [Settings.load_of_nowhere fun path hpath => hplace ⟨path, hpath⟩]

theorem menuStyle_of_wellFormed {e : Environment} {path : String} {content : List UInt8}
    {entries : List (String × Toml.Value)} (hpath : Settings.LiesAt e path)
    (hfile : e.file path = .octets content)
    (hdocument : Settings.documentOf? content = some entries)
    (hform : Settings.WellFormed entries) :
    ∃ settings, Settings.Follows settings entries ∧ menuStyle e = settings.completion.style := by
  obtain ⟨settings, hok, hfollows⟩ := Settings.exists_ofFile_eq_ok hdocument hform
  refine ⟨settings, hfollows, ?_⟩
  rw [menuStyle, Settings.load_of_liesAt hpath, hfile, hok]

/-- What a call for completions leaves behind. -/
def completing (e : Environment) (args : List String) : Outcome :=
  run e ("__complete" :: args)

theorem completing_eq {t : Tree} (h : dot.forCompletion.tree = .ok t) (e : Environment)
    (args : List String) :
    completing e args =
      { stdout := (t.complete (Request.ofArgs args).line).encode (menuStyle e) } := by
  have hmarker : completeName = "__complete" := rfl
  rw [completing, ← hmarker, run, List.head?_cons, if_pos rfl, complete, h, List.tail_cons]

/-- **Completion never fails, and the settings never change what is offered.** Whatever the
arguments and the surroundings, the program exits with 0, and its response offers the menu for the
arguments, so that in any two surroundings the same is offered. Without a settings file, and with one
from which no settings can be read, the response is the one that no file gives, in the style of the
defaults. Settings that can be read are followed. -/
theorem run_complete :
    ∃ t, dot.forCompletion.tree = .ok t ∧ ∀ args : List String,
      (∀ e, (completing e args).exit = 0 ∧
        List.Forall₂ Response.Flattens (t.complete (Request.ofArgs args).line).inserts
          (Response.readInserts (completing e args).stdout)) ∧
      (∀ e e', Response.readInserts (completing e args).stdout =
        Response.readInserts (completing e' args).stdout) ∧
      (∀ e, (∀ path, Settings.LiesAt e path →
          e.file path = .missing ∨ Settings.Unreadable (e.file path)) →
        (completing e args).stdout =
          (completing { e with file := fun _ => .missing } args).stdout ∧
        Response.Follows { header := "dot commands", color := true, descriptions := true }
          (t.complete (Request.ofArgs args).line) (completing e args).stdout) ∧
      ∀ e path content entries, Settings.LiesAt e path → e.file path = .octets content →
        Settings.documentOf? content = some entries → Settings.WellFormed entries →
        ∃ settings, Settings.Follows settings entries ∧
          Response.Follows settings.completion (t.complete (Request.ofArgs args).line)
            (completing e args).stdout := by
  have htree : dot.forCompletion.tree = .ok ⟨_, dot_accepted⟩ := Tree.ofRoot_of_check dot_accepted
  refine ⟨_, htree, ?_⟩
  intro args
  have hseverity := Tree.severity_complete_ne_none ⟨_, dot_accepted⟩ (Request.ofArgs args).line
  simp only [completing_eq htree]
  refine ⟨?_, ?_, ?_, ?_⟩
  · intro e
    exact ⟨trivial, Response.forall₂_flattens_readInserts _ _⟩
  · intro e e'
    rw [Response.readInserts_encode, Response.readInserts_encode]
  · intro e h
    rw [menuStyle_of_unreadable h, menuStyle_without_file]
    exact ⟨rfl, Response.follows_encode {} hseverity⟩
  · intro e path content entries hpath hfile hdocument hform
    obtain ⟨settings, hfollows, hstyle⟩ :=
      menuStyle_of_wellFormed hpath hfile hdocument hform
    rw [hstyle]
    exact ⟨settings, hfollows, Response.follows_encode settings.completion hseverity⟩

end Program

end Toolbox
