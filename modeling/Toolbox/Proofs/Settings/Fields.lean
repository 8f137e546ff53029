import Toolbox.Settings.Load

/-!
# Settings field by field

A settings document is any table, and four things in it count: the mode for reports, and the three
settings of the menu, which stand under `completion` in a table or, by position, in an array. Each is
on its own: it must have its form if it is given, and it has its default if it is not, whatever the
other three are. `ofFile_reads_fields` says this of every document that can be read at all, and that
nothing else in it counts.

There is one value that one would not expect to pass. A date or time under `completion` is taken for a
table in which none of the three settings is given (`isMenu`), so it is accepted and changes nothing.
-/

namespace Toolbox.Settings

open Text Toml

variable {α : Type} {entries entries' : List (String × Value)} {settings : Settings}

/-! ## What a document gives -/

/-- The table of the document that a file holds. -/
def documentOf? (content : List UInt8) : Option (List (String × Value)) :=
  (Utf8.decode? content).bind Toml.document?

/-- The values in which settings of the menu can be given. -/
def isMenu : Value → Bool
  | .table _ => true
  | .array _ => true
  | .moment _ => true
  | _ => false

/-- What a value gives for a setting of the menu: a table by the setting's key, an array by its
position, and no other value gives anything. -/
def menuPart (key : String) (position : Nat) : Value → Option Value
  | .table entries => find? key entries
  | .array items => items[position]?
  | _ => none

/-- What a document gives for a setting of the menu. -/
def givenMenu (key : String) (position : Nat) (entries : List (String × Value)) : Option Value :=
  (find? "completion" entries).bind (menuPart key position)

/-- What is given, if anything is, has the form. -/
def HasForm (form : α → Value) (given : Option Value) : Prop :=
  ∀ v, given = some v → ∃ a, v = form a

/-- The setting has the value that is given, and its default when none is. -/
inductive Taken (form : α → Value) (default : α) : Option Value → α → Prop where
  | absent : Taken form default none default
  | given (a : α) : Taken form default (some (form a)) a

/-- Everything that counts in a document has its form. -/
structure WellFormed (entries : List (String × Value)) : Prop where
  output : HasForm .text (find? "output" entries)
  menu : ∀ v, find? "completion" entries = some v → isMenu v = true
  header : HasForm .text (givenMenu "header" 0 entries)
  color : HasForm .bool (givenMenu "color" 1 entries)
  descriptions : HasForm .bool (givenMenu "descriptions" 2 entries)

/-- The settings are those of the document, with a default for each that it does not give. -/
structure Follows (settings : Settings) (entries : List (String × Value)) : Prop where
  output : find? "output" entries = settings.output.map .text
  header : Taken .text "dot commands" (givenMenu "header" 0 entries) settings.completion.header
  color : Taken .bool true (givenMenu "color" 1 entries) settings.completion.color
  descriptions :
    Taken .bool true (givenMenu "descriptions" 2 entries) settings.completion.descriptions

/-- The keys of the menu settings. -/
def menuKeys : List String :=
  ["header", "color", "descriptions"]

/-- Two values under `completion` that differ in other keys at most. -/
inductive SameMenu : Option Value → Option Value → Prop where
  | same (v : Option Value) : SameMenu v v
  | tables {entries entries' : List (String × Value)}
      (h : ∀ key ∈ menuKeys, find? key entries = find? key entries') :
      SameMenu (some (.table entries)) (some (.table entries'))

/-- Two documents that differ in other keys at most, at the top and under `completion`. -/
structure SameFields (entries entries' : List (String × Value)) : Prop where
  output : find? "output" entries = find? "output" entries'
  completion : SameMenu (find? "completion" entries) (find? "completion" entries')

/-! ## One setting -/

theorem readText_eq_some_iff {v : Value} {s : String} : readText v = some s ↔ v = .text s := by
  cases v <;> simp [readText]

theorem readBool_eq_some_iff {v : Value} {b : Bool} : readBool v = some b ↔ v = .bool b := by
  cases v <;> simp [readBool]

section

variable {read : Value → Option α} {form : α → Value} {default : α} {given : Option Value}

/-- A setting is read as it is given, or has its default. -/
theorem setting_eq_some_iff (hread : ∀ {v a}, read v = some a ↔ v = form a) {a : α} :
    setting read default given = some a ↔ Taken form default given a := by
  cases given with
  | none =>
    rw [setting, Option.some.injEq]
    constructor
    · rintro rfl
      exact .absent
    · intro h
      cases h
      rfl
  | some v =>
    rw [setting, hread]
    constructor
    · rintro rfl
      exact .given a
    · intro h
      cases h
      rfl

theorem exists_taken_iff : (∃ a, Taken form default given a) ↔ HasForm form given := by
  constructor
  · rintro ⟨a, h⟩ v hv
    cases h with
    | absent => cases hv
    | given => exact ⟨a, (Option.some.inj hv).symm⟩
  · intro h
    cases given with
    | none => exact ⟨default, .absent⟩
    | some v =>
      obtain ⟨a, rfl⟩ := h v rfl
      exact ⟨a, .given a⟩

end

/-! ## All settings -/

theorem menuSettings_eq_some_iff {header color descriptions : Option Value} {m : MenuSettings} :
    menuSettings header color descriptions = some m ↔
      Taken .text "dot commands" header m.header ∧ Taken .bool true color m.color ∧
        Taken .bool true descriptions m.descriptions := by
  rw [← setting_eq_some_iff readText_eq_some_iff, ← setting_eq_some_iff readBool_eq_some_iff,
    ← setting_eq_some_iff readBool_eq_some_iff]
  simp only [menuSettings, Option.bind_eq_bind, Option.bind_eq_some_iff, Option.pure_def,
    Option.some.injEq]
  constructor
  · rintro ⟨h, hh, c, hc, d, hd, rfl⟩
    exact ⟨hh, hc, hd⟩
  · rintro ⟨hh, hc, hd⟩
    exact ⟨_, hh, _, hc, _, hd, rfl⟩

theorem readMenu_eq {v : Value} (h : isMenu v = true) :
    readMenu v = menuSettings (menuPart "header" 0 v) (menuPart "color" 1 v)
      (menuPart "descriptions" 2 v) := by
  cases v with
  | table entries => rfl
  | array items => rfl
  | moment m => rfl
  | text s => cases h
  | integer n => cases h
  | real r => cases h
  | bool b => cases h

theorem readMenu_eq_none {v : Value} (h : isMenu v = false) : readMenu v = none := by
  cases v with
  | table entries => cases h
  | array items => cases h
  | moment m => cases h
  | text s => rfl
  | integer n => rfl
  | real r => rfl
  | bool b => rfl

/-- The menu is read from a value of the right sort, part by part, and without one it is all
defaults. -/
theorem setting_readMenu_eq_some_iff {given : Option Value} {m : MenuSettings} :
    setting readMenu {} given = some m ↔ (∀ v, given = some v → isMenu v = true) ∧
      Taken .text "dot commands" (given.bind (menuPart "header" 0)) m.header ∧
      Taken .bool true (given.bind (menuPart "color" 1)) m.color ∧
      Taken .bool true (given.bind (menuPart "descriptions" 2)) m.descriptions := by
  rw [← menuSettings_eq_some_iff]
  cases given with
  | none =>
    constructor
    · intro h
      exact ⟨nofun, h⟩
    · intro h
      exact h.2
  | some v =>
    rw [setting]
    cases hmenu : isMenu v with
    | true =>
      rw [readMenu_eq hmenu]
      constructor
      · intro h
        refine ⟨?_, h⟩
        rintro _ ⟨⟩
        exact hmenu
      · intro h
        exact h.2
    | false =>
      rw [readMenu_eq_none hmenu]
      constructor
      · nofun
      · intro h
        rw [h.1 v rfl] at hmenu
        cases hmenu

theorem setting_output_eq_some_iff {given : Option Value} {output : Option String} :
    setting (fun v => (readText v).map some) none given = some output ↔
      given = output.map .text := by
  cases given with
  | none => cases output <;> simp [setting]
  | some v => cases output <;> simp [setting, readText_eq_some_iff]

/-- **What a document is read as.** -/
theorem ofTable?_eq_some_iff :
    ofTable? entries = some settings ↔
      (∀ v, find? "completion" entries = some v → isMenu v = true) ∧ Follows settings entries := by
  simp only [ofTable?, Option.bind_eq_bind, Option.bind_eq_some_iff, Option.pure_def,
    Option.some.injEq]
  constructor
  · rintro ⟨m, hm, output, houtput, rfl⟩
    obtain ⟨hmenu, hheader, hcolor, hdescriptions⟩ := setting_readMenu_eq_some_iff.mp hm
    exact ⟨hmenu, setting_output_eq_some_iff.mp houtput, hheader, hcolor, hdescriptions⟩
  · rintro ⟨hmenu, houtput, hheader, hcolor, hdescriptions⟩
    exact ⟨settings.completion,
      setting_readMenu_eq_some_iff.mpr ⟨hmenu, hheader, hcolor, hdescriptions⟩,
      settings.output, setting_output_eq_some_iff.mpr houtput, rfl⟩

/-- A document is read as some settings exactly when it is well formed. -/
theorem exists_ofTable?_eq_some_iff :
    (∃ settings, ofTable? entries = some settings) ↔ WellFormed entries := by
  simp only [ofTable?_eq_some_iff]
  constructor
  · rintro ⟨settings, hmenu, houtput, hheader, hcolor, hdescriptions⟩
    refine ⟨?_, hmenu, exists_taken_iff.mp ⟨_, hheader⟩, exists_taken_iff.mp ⟨_, hcolor⟩,
      exists_taken_iff.mp ⟨_, hdescriptions⟩⟩
    intro v hv
    rw [houtput, Option.map_eq_some_iff] at hv
    obtain ⟨s, -, rfl⟩ := hv
    exact ⟨s, rfl⟩
  · rintro ⟨houtput, hmenu, hheader, hcolor, hdescriptions⟩
    obtain ⟨header, hheader⟩ := exists_taken_iff.mpr hheader
    obtain ⟨color, hcolor⟩ := exists_taken_iff.mpr hcolor
    obtain ⟨descriptions, hdescriptions⟩ := exists_taken_iff.mpr hdescriptions
    cases hgiven : find? "output" entries with
    | none =>
      exact ⟨{ completion := { header, color, descriptions }, output := none },
        hmenu, hgiven, hheader, hcolor, hdescriptions⟩
    | some v =>
      obtain ⟨s, rfl⟩ := houtput v hgiven
      exact ⟨{ completion := { header, color, descriptions }, output := some s },
        hmenu, hgiven, hheader, hcolor, hdescriptions⟩

theorem SameMenu.readMenu_eq {given given' : Option Value} (h : SameMenu given given') :
    setting readMenu {} given = setting readMenu {} given' := by
  cases h with
  | same v => rfl
  | tables h =>
    rw [setting, setting, readMenu, readMenu, h "header" (by decide), h "color" (by decide),
      h "descriptions" (by decide)]

/-- Nothing else in a document counts. -/
theorem SameFields.ofTable?_eq (h : SameFields entries entries') :
    ofTable? entries = ofTable? entries' := by
  rw [ofTable?, ofTable?, h.completion.readMenu_eq, h.output]

/-! ## Files -/

theorem ofFile_eq {content : List UInt8} (h : documentOf? content = some entries) :
    ofFile (.octets content) = (ofTable? entries).elim (.error .malformed) .ok := by
  rw [documentOf?, Option.bind_eq_some_iff] at h
  obtain ⟨s, hs, hdocument⟩ := h
  rw [ofFile, hs]
  simp only [ofDocument, hdocument, Option.bind_some]
  cases ofTable? entries <;> rfl

theorem ofFile_eq_ok_iff {content : List UInt8} (h : documentOf? content = some entries) :
    ofFile (.octets content) = .ok settings ↔ ofTable? entries = some settings := by
  rw [ofFile_eq h]
  cases ofTable? entries <;> simp

/-- **Settings are read field by field.** A file that holds a document gives settings exactly when
what counts in the document has its form, and is refused as malformed otherwise. The settings are
those that the document gives, each with its own default where it gives none. Other keys, at the top
or under `completion`, can be added, removed and changed without any effect. -/
theorem ofFile_reads_fields {content : List UInt8} (h : documentOf? content = some entries) :
    ((∃ settings, ofFile (.octets content) = .ok settings) ↔ WellFormed entries) ∧
      (ofFile (.octets content) = .error .malformed ↔ ¬ WellFormed entries) ∧
      (∀ settings, ofFile (.octets content) = .ok settings → Follows settings entries) ∧
      ∀ content' entries', documentOf? content' = some entries' → SameFields entries entries' →
        ofFile (.octets content') = ofFile (.octets content) := by
  refine ⟨?_, ?_, ?_, ?_⟩
  · simp only [ofFile_eq_ok_iff h]
    exact exists_ofTable?_eq_some_iff
  · rw [← exists_ofTable?_eq_some_iff, ofFile_eq h]
    cases ofTable? entries <;> simp
  · intro settings hsettings
    exact (ofTable?_eq_some_iff.mp ((ofFile_eq_ok_iff h).mp hsettings)).2
  · intro content' entries' h' hsame
    rw [ofFile_eq h, ofFile_eq h', hsame.ofTable?_eq]

/-- A file with a mode, one setting of the menu, and a key that is none. -/
def sampleFile : List UInt8 :=
  "output = 'json'\n[completion]\ncolor = false\ncolour = [1]\n".toUTF8.data.toList

theorem documentOf?_sampleFile :
    documentOf? sampleFile = some [("output", .text "json"),
      ("completion", .table [("color", .bool false), ("colour", .array [.integer 1])])] := by
  decide +kernel

/-- The file gives two of the settings, and the other two have their defaults. -/
theorem sampleFile_reads_fields :
    documentOf? sampleFile = some [("output", .text "json"),
        ("completion", .table [("color", .bool false), ("colour", .array [.integer 1])])] ∧
      ofFile (.octets sampleFile) =
        .ok { completion := { color := false }, output := some "json" } := by
  refine ⟨documentOf?_sampleFile, ?_⟩
  obtain ⟨hiff, -, hfollows, -⟩ := ofFile_reads_fields documentOf?_sampleFile
  obtain ⟨settings, hsettings⟩ := hiff.mpr
    { output := by rintro v ⟨⟩; exact ⟨"json", rfl⟩
      menu := by rintro v ⟨⟩; rfl
      header := by rintro v ⟨⟩
      color := by rintro v ⟨⟩; exact ⟨false, rfl⟩
      descriptions := by rintro v ⟨⟩ }
  rw [hsettings]
  obtain ⟨⟨header, color, descriptions⟩, output⟩ := settings
  obtain ⟨houtput, hheader, hcolor, hdescriptions⟩ := hfollows _ hsettings
  cases output with
  | none => cases houtput
  | some output =>
    cases houtput
    cases hheader
    cases hcolor
    cases hdescriptions
    rfl

/-- A file with a date where the menu settings should be. -/
def dateFile : List UInt8 :=
  "completion = 1979-05-27".toUTF8.data.toList

/-- A date under `completion` is neither a table nor an array, and the file is accepted. -/
theorem dateFile_is_accepted :
    documentOf? dateFile = some [("completion", .moment (.date ⟨1979, 5, 27⟩))] ∧
      ofFile (.octets dateFile) = .ok {} := by
  have hdocument :
      documentOf? dateFile = some [("completion", .moment (.date ⟨1979, 5, 27⟩))] := by
    decide +kernel
  exact ⟨hdocument, (ofFile_eq_ok_iff hdocument).mpr rfl⟩

end Toolbox.Settings
