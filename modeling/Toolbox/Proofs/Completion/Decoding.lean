import Mathlib.Data.List.Forall2
import Toolbox.Completion.Response
import Toolbox.Proofs.Text.Affix

/-!
# Reading a response back

A menu is sent as one text. This file is the reader at the other end, written without a look at how
the text was put together: it cuts the text at newlines, tells a candidate's line from a tag line by
the unit separator in it, and cuts each at its first separator or tab. `encode_reads_back` says that
it finds what was sent, for every menu and every style.

The parts of a menu are arbitrary texts and are sent on one line each. What that does to a text is
said of its characters (`Flattens`), and `flattens_iff` is the agreement with `flat`. Everything else
rests on what `flat` returns being *clean*: it holds neither a newline nor a carriage return nor a
separator. The lines are put together from clean parts, and the reader cuts at the characters that
were put between them.

A shell reads less carefully (`reply?`): it passes over a line that merely *begins* like a tag line.
A candidate whose text begins so is lost to it, and that is the one condition under which it takes
every candidate.
-/

namespace Toolbox

open Text

namespace Response

/-! ## The reader -/

/-- A line with a separator in it is a candidate's. -/
def isCandidate (line : String) : Bool :=
  holds '\x1f' line

/-- The text without the spaces it begins with. -/
def dropSpaces (s : String) : String :=
  String.ofList (s.toList.dropWhile (· = ' '))

/-- The name and the body of a tag line. -/
def readTag (line : String) : Option (String × String) :=
  cutAt '\t' line

/-- The text to insert and the remark of a candidate's line. The remark is what the line of
the menu has after the text and the spaces behind it. -/
def readCandidate (line : String) : Option (String × String) :=
  match cutAt '\x1f' line with
  | none => none
  | some (insert, shown) => (after? insert shown).map fun rest => (insert, dropSpaces rest)

/-- How tag lines begin. -/
def tagStarts : List String :=
  ["COLOR\t", "NOTE\t", "HEADER\t"]

/-- The word a shell completes with for a line, behind the part of the typed word that it keeps. A
line that begins like a tag line or has no separator is passed over; of any other line it takes what
stands before the first separator. -/
def reply? (kept line : String) : Option String :=
  if tagStarts.any (startsWith line ·) then none
  else (cutAt '\x1f' line).map fun p => kept ++ p.1

/-! ## What there is to find -/

/-- The text `t` is `s` on one line: it has a space where `s` has a newline, a carriage return or a
separator, and is `s` everywhere else. -/
def Flattens (s t : String) : Prop :=
  List.Forall₂ (fun c d => if c = '\n' ∨ c = '\r' ∨ c = '\x1f' then d = ' ' else d = c)
    s.toList t.toList

/-- What is shown beside a candidate: its description on one line behind two dashes, if it has one
and descriptions are sent, and else nothing. -/
inductive RemarkOf (descriptions : Bool) (c : Candidate) : String → Prop where
  | shown {display text : String} : descriptions = true → c.display = some display →
      Flattens display text → RemarkOf descriptions c ("-- " ++ text)
  | undescribed : c.display = none → RemarkOf descriptions c ""
  | unwanted : descriptions = false → RemarkOf descriptions c ""

def SaysColor : Severity → String → Prop
  | .info, line => readTag line = some ("COLOR", "green")
  | .error, line => readTag line = some ("COLOR", "red")

def SaysNote (note line : String) : Prop :=
  ∃ body, readTag line = some ("NOTE", body) ∧ Flattens note body

def SaysHeader (header line : String) : Prop :=
  ∃ body, readTag line = some ("HEADER", " " ++ body) ∧ Flattens header body

def SaysCandidate (descriptions : Bool) (c : Candidate) (line : String) : Prop :=
  ∃ insert remark, readCandidate line = some (insert, remark) ∧ Flattens c.insert insert ∧
    RemarkOf descriptions c remark

/-- The word that a shell completes with for a candidate. -/
def RepliesTo (kept : String) (c : Candidate) (reply : String) : Prop :=
  ∃ insert, Flattens c.insert insert ∧ reply = kept ++ insert

/-! ## Texts on one line -/

theorem breaksFrame_iff {c : Char} :
    breaksFrame c = true ↔ c = '\n' ∨ c = '\r' ∨ c = '\x1f' := by
  rw [breaksFrame, Bool.or_eq_true, Bool.or_eq_true, decide_eq_true_iff, decide_eq_true_iff,
    decide_eq_true_iff, or_assoc, separator]

theorem flattens_iff {s t : String} : Flattens s t ↔ flat s = t := by
  have hsends : (fun c d : Char => if c = '\n' ∨ c = '\r' ∨ c = '\x1f' then d = ' ' else d = c) =
      fun c d => (if breaksFrame c then ' ' else c) = d := by
    funext c d
    simp only [← breaksFrame_iff]
    split
    · exact propext eq_comm
    · exact propext eq_comm
  rw [Flattens, hsends, ← List.forall₂_map_left_iff, List.forall₂_eq_eq_eq, flat,
    ← String.toList_inj, String.toList_ofList]

theorem flattens_flat (s : String) : Flattens s (flat s) :=
  flattens_iff.mpr rfl

theorem Flattens.length_eq {s t : String} (h : Flattens s t) : t.length = s.length := by
  rw [← String.length_toList, ← String.length_toList]
  exact (List.Forall₂.length_eq h).symm

/-! ## Clean texts -/

/-- No character of the text breaks the framing. -/
def isClean (s : String) : Bool :=
  s.toList.all fun c => !breaksFrame c

theorem holds_of_isClean {s : String} (h : isClean s = true) {c : Char}
    (hc : c = '\n' ∨ c = '\r' ∨ c = '\x1f') : holds c s = false := by
  rw [holds_eq_false_iff]
  intro hm
  have hclean := List.all_eq_true.mp h c hm
  rw [breaksFrame_iff.mpr hc] at hclean
  cases hclean

@[simp] theorem isClean_append (s t : String) : isClean (s ++ t) = (isClean s && isClean t) := by
  simp [isClean]

@[simp] theorem isClean_flat (s : String) : isClean (flat s) = true := by
  rw [isClean, flat, String.toList_ofList, List.all_map, List.all_eq_true]
  intro c _
  have hspace : breaksFrame ' ' = false := by decide
  cases hc : breaksFrame c <;> simp [hc, hspace]

@[simp] theorem isClean_spaces (n : Nat) :
    isClean (String.ofList (List.replicate n ' ')) = true := by
  rw [isClean, String.toList_ofList, List.all_eq_true]
  intro c hc
  rw [List.eq_of_mem_replicate hc]
  decide

theorem dropSpaces_append (n : Nat) (s : String) :
    dropSpaces (String.ofList (List.replicate n ' ') ++ s) = dropSpaces s := by
  rw [dropSpaces, dropSpaces, String.toList_append, String.toList_ofList,
    List.dropWhile_append_of_pos]
  intro c hc
  simpa using List.eq_of_mem_replicate hc

/-- The remark as it is sent. -/
def remark (style : ResponseStyle) (c : Candidate) : String :=
  match c.display.filter fun _ => style.descriptions with
  | some display => "-- " ++ flat display
  | none => ""

theorem remarkOf_remark (style : ResponseStyle) (c : Candidate) :
    RemarkOf style.descriptions c (remark style c) := by
  rw [remark]
  cases hdisplay : c.display with
  | none => exact .undescribed hdisplay
  | some display =>
    cases hsent : style.descriptions with
    | false => exact .unwanted rfl
    | true => exact .shown rfl hdisplay (flattens_flat display)

@[simp] theorem isClean_remark (style : ResponseStyle) (c : Candidate) :
    isClean (remark style c) = true := by
  have hdashes : isClean "-- " = true := by decide
  rw [remark]
  split
  · simp [hdashes]
  · decide

theorem dropSpaces_remark (style : ResponseStyle) (c : Candidate) :
    dropSpaces (remark style c) = remark style c := by
  -- the spaces of the padding never run into it: it begins with a dash, or there is none
  have hdashes : "-- ".toList = ['-', '-', ' '] := by decide
  rw [remark]
  split
  · rw [dropSpaces, ← String.toList_inj, String.toList_ofList, String.toList_append, hdashes]
    rfl
  · rfl

/-! ## The lines that are written -/

def colorTags (style : ResponseStyle) (m : Menu) : List (String × String) :=
  (if style.color then m.severity.toList else []).map fun s => ("COLOR", s.color)

def noteTags (m : Menu) : List (String × String) :=
  m.note.toList.map fun note => ("NOTE", flat note)

def headerTags (style : ResponseStyle) : List (String × String) :=
  style.header.toList.map fun header => ("HEADER", " " ++ flat header)

/-- The names and bodies of the tag lines. -/
def tags (style : ResponseStyle) (m : Menu) : List (String × String) :=
  colorTags style m ++ noteTags m ++ headerTags style

def tagText (p : String × String) : String :=
  (Line.tag p.1 p.2).text

theorem tagLines_eq (style : ResponseStyle) (m : Menu) :
    tagLines style m = (tags style m).map fun p => .tag p.1 p.2 := by
  rw [tagLines, tags, colorTags, noteTags, headerTags, List.map_append, List.map_append,
    List.map_map, List.map_map, List.map_map]
  cases style.color <;> rfl

theorem of_mem_tags {style : ResponseStyle} {m : Menu} {p : String × String}
    (h : p ∈ tags style m) :
    (p.1 = "COLOR" ∨ p.1 = "NOTE" ∨ p.1 = "HEADER") ∧ isClean p.2 = true := by
  simp only [tags, colorTags, noteTags, headerTags, List.mem_append, List.mem_map] at h
  rcases h with (⟨severity, -, rfl⟩ | ⟨note, -, rfl⟩) | ⟨header, -, rfl⟩
  · refine ⟨.inl rfl, ?_⟩
    cases severity <;> decide
  · exact ⟨.inr (.inl rfl), isClean_flat note⟩
  · have hspace : isClean " " = true := by decide
    exact ⟨.inr (.inr rfl), by simp [hspace]⟩

/-- A candidate's line shows the text, filled up to the width, with the remark behind it. -/
theorem candidateLine_eq (style : ResponseStyle) (width : Nat) (c : Candidate) :
    candidateLine style width c =
      .candidate (flat c.insert) (padTo width (flat c.insert) ++ remark style c) := by
  rw [candidateLine, remark]
  cases style.descriptions <;> cases c.display <;> simp [String.append_assoc, Option.filter]

/-- A candidate's line is its text, the separator, and the text again with spaces and the remark
behind it. -/
theorem text_candidateLine (style : ResponseStyle) (width : Nat) (c : Candidate) :
    ∃ n, (candidateLine style width c).text = flat c.insert ++ String.ofList ['\x1f'] ++
      (flat c.insert ++ (String.ofList (List.replicate n ' ') ++ remark style c)) := by
  refine ⟨width - (flat c.insert).length, ?_⟩
  simp only [candidateLine_eq, Line.text, separator, padTo, String.append_assoc]

/-! ## What the reader makes of them -/

theorem readTag_tagText {p : String × String} (hname : holds '\t' p.1 = false) :
    readTag (tagText p) = some p :=
  cutAt_eq_some_iff.mpr ⟨rfl, hname⟩

theorem cutAt_text_candidateLine (style : ResponseStyle) (width : Nat) (c : Candidate) :
    ∃ n, cutAt '\x1f' (candidateLine style width c).text = some (flat c.insert,
      flat c.insert ++ (String.ofList (List.replicate n ' ') ++ remark style c)) := by
  obtain ⟨n, htext⟩ := text_candidateLine style width c
  refine ⟨n, cutAt_eq_some_iff.mpr ⟨htext, ?_⟩⟩
  exact holds_of_isClean (isClean_flat _) (.inr (.inr rfl))

/-- **A candidate's line gives back its text and its remark.** -/
theorem readCandidate_text (style : ResponseStyle) (width : Nat) (c : Candidate) :
    readCandidate (candidateLine style width c).text =
      some (flat c.insert, remark style c) := by
  obtain ⟨n, hcut⟩ := cutAt_text_candidateLine style width c
  rw [readCandidate, hcut]
  simp only [after?_append, Option.map_some]
  rw [dropSpaces_append, dropSpaces_remark]

theorem holds_text_candidateLine (style : ResponseStyle) (width : Nat) (c : Candidate) {ch : Char}
    (hbreak : ch = '\n' ∨ ch = '\r') :
    holds ch (candidateLine style width c).text = false := by
  obtain ⟨n, htext⟩ := text_candidateLine style width c
  have hbreaks : ch = '\n' ∨ ch = '\r' ∨ ch = '\x1f' := or_assoc.mp (.inl hbreak)
  have hinsert := holds_of_isClean (isClean_flat c.insert) hbreaks
  have hspaces := holds_of_isClean (isClean_spaces n) hbreaks
  have hremark := holds_of_isClean (isClean_remark style c) hbreaks
  have hmiddle : holds ch (String.ofList ['\x1f']) = false := by
    rcases hbreak with rfl | rfl <;> decide
  simp only [htext, holds_append, hinsert, hspaces, hremark, hmiddle, Bool.or_false]

theorem isCandidate_text_candidateLine (style : ResponseStyle) (width : Nat) (c : Candidate) :
    isCandidate (candidateLine style width c).text = true := by
  obtain ⟨n, htext⟩ := text_candidateLine style width c
  have hmiddle : holds '\x1f' (String.ofList ['\x1f']) = true := by decide
  rw [isCandidate, htext, holds_append, holds_append, hmiddle]
  simp

theorem text_of_mem_tags {style : ResponseStyle} {m : Menu} {p : String × String}
    (h : p ∈ tags style m) :
    isClean (tagText p) = true ∧ holds '\t' p.1 = false ∧
      tagStarts.any (startsWith (tagText p) ·) = true := by
  obtain ⟨name, body⟩ := p
  obtain ⟨hname, hbody⟩ := of_mem_tags h
  have htab : isClean "\t" = true := by decide
  have hstart : tagStarts.contains (name ++ "\t") = true := by
    rcases hname with rfl | rfl | rfl <;> decide
  refine ⟨?_, ?_, List.any_eq_true.mpr ⟨_, List.contains_iff_mem.mp hstart, ?_⟩⟩
  · have hclean : isClean name = true := by rcases hname with rfl | rfl | rfl <;> decide
    simp [tagText, Line.text, hclean, hbody, htab]
  · show holds '\t' name = false
    rcases hname with rfl | rfl | rfl <;> decide
  · exact startsWith_append _ body

theorem startsWith_tagStart {style : ResponseStyle} {width : Nat} {c : Candidate} {start : String}
    (hstart : start ∈ tagStarts)
    (h : startsWith (candidateLine style width c).text start = true) :
    startsWith (flat c.insert) start = true := by
  obtain ⟨n, htext⟩ := text_candidateLine style width c
  rw [htext] at h
  refine startsWith_of_cut h ?_
  -- no tag has a separator in it, so its end is before the first of the line
  have hclean : ∀ start ∈ tagStarts, holds '\x1f' start = false := by decide
  exact hclean start hstart

theorem reply?_of_mem_tags {style : ResponseStyle} {m : Menu} {p : String × String}
    (h : p ∈ tags style m) (kept : String) : reply? kept (tagText p) = none := by
  rw [reply?, if_pos (text_of_mem_tags h).2.2]

theorem reply?_candidateLine {c : Candidate}
    (h : ∀ start ∈ tagStarts, startsWith (flat c.insert) start = false) (kept : String)
    (style : ResponseStyle) (width : Nat) :
    reply? kept (candidateLine style width c).text = some (kept ++ flat c.insert) := by
  obtain ⟨n, hcut⟩ := cutAt_text_candidateLine style width c
  rw [reply?, if_neg, hcut, Option.map_some]
  intro hany
  obtain ⟨start, hstart, hline⟩ := List.any_eq_true.mp hany
  have hinsert := startsWith_tagStart hstart hline
  rw [h start hstart] at hinsert
  cases hinsert

/-! ## The response as a whole -/

/-- The tag lines of a response. -/
def tagTexts (style : ResponseStyle) (m : Menu) : List String :=
  (tags style m).map tagText

/-- The candidates' lines of a response. -/
def candidateTexts (style : ResponseStyle) (m : Menu) : List String :=
  m.items.map fun c => (candidateLine style (width m) c).text

theorem map_text_ofMenu (style : ResponseStyle) (m : Menu) :
    (ofMenu style m).map Line.text = tagTexts style m ++ candidateTexts style m := by
  rw [ofMenu, tagLines_eq, List.map_append, List.map_map, List.map_map]
  rfl

theorem isClean_of_mem_tagTexts {style : ResponseStyle} {m : Menu} {line : String}
    (h : line ∈ tagTexts style m) : isClean line = true := by
  obtain ⟨p, hp, rfl⟩ := List.mem_map.mp h
  exact (text_of_mem_tags hp).1

theorem holds_eq_false_of_mem_texts {style : ResponseStyle} {m : Menu} {line : String}
    (h : line ∈ tagTexts style m ++ candidateTexts style m) {ch : Char}
    (hbreak : ch = '\n' ∨ ch = '\r') : holds ch line = false := by
  rcases List.mem_append.mp h with h | h
  · exact holds_of_isClean (isClean_of_mem_tagTexts h) (or_assoc.mp (.inl hbreak))
  · obtain ⟨c, -, rfl⟩ := List.mem_map.mp h
    exact holds_text_candidateLine style _ c hbreak

theorem filterMap_reply?_texts {style : ResponseStyle} {m : Menu}
    (h : ∀ c ∈ m.items, ∀ start ∈ tagStarts, startsWith (flat c.insert) start = false)
    (kept : String) :
    (tagTexts style m ++ candidateTexts style m).filterMap (reply? kept) =
      m.items.map (kept ++ flat ·.insert) := by
  have htags : (tagTexts style m).filterMap (reply? kept) = [] := by
    rw [List.filterMap_eq_nil_iff]
    intro line hline
    obtain ⟨p, hp, rfl⟩ := List.mem_map.mp hline
    exact reply?_of_mem_tags hp kept
  rw [List.filterMap_append, htags, List.nil_append, candidateTexts, List.filterMap_map]
  refine List.filterMap_eq_map_iff_forall_eq_some.mpr ?_
  intro c hc
  rw [Function.comp_apply, reply?_candidateLine (h c hc)]

/-- A response is the lines of its tags and those of its candidates, each closed by a newline. -/
theorem splitLines_encode (style : ResponseStyle) (m : Menu) :
    splitLines (m.encode style) = tagTexts style m ++ candidateTexts style m ++ [""] := by
  rw [Menu.encode, map_text_ofMenu, splitLines_lines]
  intro line hline
  exact holds_eq_false_of_mem_texts hline (.inl rfl)

theorem isCandidate_of_mem_tagTexts {style : ResponseStyle} {m : Menu} {line : String}
    (h : line ∈ tagTexts style m) : isCandidate line = false :=
  holds_of_isClean (isClean_of_mem_tagTexts h) (.inr (.inr rfl))

theorem isCandidate_of_mem_candidateTexts {style : ResponseStyle} {m : Menu} {line : String}
    (h : line ∈ candidateTexts style m) : isCandidate line = true := by
  obtain ⟨c, -, rfl⟩ := List.mem_map.mp h
  exact isCandidate_text_candidateLine style _ c

/-- The lines with a separator are the candidates' lines. -/
theorem filter_isCandidate_splitLines (style : ResponseStyle) (m : Menu) :
    (splitLines (m.encode style)).filter isCandidate = candidateTexts style m := by
  have htags : (tagTexts style m).filter isCandidate = [] := by
    rw [List.filter_eq_nil_iff]
    intro line hline
    simp [isCandidate_of_mem_tagTexts hline]
  have hcandidates : (candidateTexts style m).filter isCandidate = candidateTexts style m :=
    List.filter_eq_self.mpr fun _ hline => isCandidate_of_mem_candidateTexts hline
  have hlast : [""].filter isCandidate = [] := by decide
  rw [splitLines_encode, List.filter_append, List.filter_append, htags, hcandidates, hlast,
    List.nil_append, List.append_nil]

/-- The lines without one are the tags' lines, and what is left after the last newline. -/
theorem filter_not_isCandidate_splitLines (style : ResponseStyle) (m : Menu) :
    (splitLines (m.encode style)).filter (!isCandidate ·) = tagTexts style m ++ [""] := by
  have htags : (tagTexts style m).filter (!isCandidate ·) = tagTexts style m := by
    rw [List.filter_eq_self]
    intro line hline
    simp [isCandidate_of_mem_tagTexts hline]
  have hcandidates : (candidateTexts style m).filter (!isCandidate ·) = [] := by
    rw [List.filter_eq_nil_iff]
    intro line hline
    simp [isCandidate_of_mem_candidateTexts hline]
  have hlast : [""].filter (!isCandidate ·) = [""] := by decide
  rw [splitLines_encode, List.filter_append, List.filter_append, htags, hcandidates, hlast,
    List.append_nil]

theorem forall₂_saysColor (style : ResponseStyle) (m : Menu) :
    List.Forall₂ SaysColor (if style.color then m.severity.toList else [])
      ((colorTags style m).map tagText) := by
  rw [colorTags, List.map_map, List.forall₂_map_right_iff, List.forall₂_same]
  intro severity _
  cases severity with
  | info => exact readTag_tagText (by decide)
  | error => exact readTag_tagText (by decide)

theorem forall₂_saysNote (m : Menu) :
    List.Forall₂ SaysNote m.note.toList ((noteTags m).map tagText) := by
  rw [noteTags, List.map_map, List.forall₂_map_right_iff, List.forall₂_same]
  intro note _
  have hname : holds '\t' "NOTE" = false := by decide
  exact ⟨flat note, readTag_tagText hname, flattens_flat note⟩

theorem forall₂_saysHeader (style : ResponseStyle) :
    List.Forall₂ SaysHeader style.header.toList ((headerTags style).map tagText) := by
  rw [headerTags, List.map_map, List.forall₂_map_right_iff, List.forall₂_same]
  intro header _
  have hname : holds '\t' "HEADER" = false := by decide
  exact ⟨flat header, readTag_tagText hname, flattens_flat header⟩

theorem forall₂_saysCandidate (style : ResponseStyle) (m : Menu) :
    List.Forall₂ (SaysCandidate style.descriptions) m.items (candidateTexts style m) := by
  rw [candidateTexts, List.forall₂_map_right_iff, List.forall₂_same]
  intro c _
  exact ⟨flat c.insert, remark style c, readCandidate_text style _ c, flattens_flat _,
    remarkOf_remark style c⟩

theorem tagTexts_eq (style : ResponseStyle) (m : Menu) :
    tagTexts style m = (colorTags style m).map tagText ++ (noteTags m).map tagText ++
      (headerTags style).map tagText := by
  rw [tagTexts, tags, List.map_append, List.map_append]

/-- **A response reads back.** Cut at newlines it is at most three tag lines, then one line for each
candidate, and nothing more. The tags are the colour if colours are sent and there is a severity, the
note if there is one, and the caption if there is one; each candidate's line gives back the
candidate's text and remark on one line, in order; no line holds a carriage return; and where no text
begins like a tag line a shell takes every text. -/
theorem encode_reads_back (style : ResponseStyle) (m : Menu) :
    ∃ colors notes headers candidates,
      splitLines (m.encode style) = colors ++ notes ++ headers ++ candidates ++ [""] ∧
      List.Forall₂ SaysColor (if style.color then m.severity.toList else []) colors ∧
      List.Forall₂ SaysNote m.note.toList notes ∧
      List.Forall₂ SaysHeader style.header.toList headers ∧
      List.Forall₂ (SaysCandidate style.descriptions) m.items candidates ∧
      (∀ line ∈ colors ++ notes ++ headers, isCandidate line = false) ∧
      (∀ line ∈ candidates, isCandidate line = true) ∧
      (∀ line ∈ colors ++ notes ++ headers ++ candidates, holds '\r' line = false) ∧
      ((∀ c ∈ m.items, ∀ insert, Flattens c.insert insert →
          ∀ start ∈ tagStarts, startsWith insert start = false) →
        ∀ kept, List.Forall₂ (RepliesTo kept) m.items
          ((colors ++ notes ++ headers ++ candidates).filterMap (reply? kept))) := by
  refine ⟨(colorTags style m).map tagText, (noteTags m).map tagText,
    (headerTags style).map tagText, candidateTexts style m, ?_, forall₂_saysColor style m,
    forall₂_saysNote m, forall₂_saysHeader style, forall₂_saysCandidate style m, ?_, ?_, ?_, ?_⟩
  · rw [← tagTexts_eq]
    exact splitLines_encode style m
  · intro line hline
    rw [← tagTexts_eq] at hline
    exact isCandidate_of_mem_tagTexts hline
  · intro line hline
    exact isCandidate_of_mem_candidateTexts hline
  · intro line hline
    rw [← tagTexts_eq] at hline
    exact holds_eq_false_of_mem_texts hline (.inr rfl)
  · intro h kept
    have hplain : ∀ c ∈ m.items, ∀ start ∈ tagStarts, startsWith (flat c.insert) start = false :=
      fun c hc => h c hc (flat c.insert) (flattens_flat c.insert)
    rw [← tagTexts_eq, filterMap_reply?_texts hplain, List.forall₂_map_right_iff,
      List.forall₂_same]
    intro c _
    exact ⟨flat c.insert, flattens_flat c.insert, rfl⟩

end Response

end Toolbox
