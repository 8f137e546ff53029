import Toolbox.Proofs.Settings.Fields

/-!
# Where settings lie, and what is loaded

Which file is read depends on four things in the surroundings, each of which may be missing, and the
rules for them are tried one after the other: `LiesAt` says them as rules, and `path?_eq_some_iff` is
the agreement with the code. What a file gives was said field by field in the module before this one;
here it is said of files that are not even documents (`Unreadable`), so that together with
`WellFormed` every state of the file is accounted for.

`below` is the way paths are joined and is taken as it is.
-/

namespace Toolbox.Settings

open Text Toml

variable {e : Environment} {path : String}

/-! ## The place of the file -/

/-- The home directory: that of the variable unless it is unset or empty, and then that of the
account. -/
inductive HomeIs (e : Environment) : String → Prop where
  | own {home : String} : e.lookup "HOME" = some home → home ≠ "" → HomeIs e home
  | account {home : String} : (∀ value, e.lookup "HOME" = some value → value = "") →
      e.accountHome = some home → HomeIs e home

/-- The directory for settings: that of the variable if it is an absolute path, else one at home. -/
inductive DirectoryIs (e : Environment) : String → Prop where
  | own {directory : String} : e.lookup "XDG_CONFIG_HOME" = some directory →
      directory.toList.head? = some '/' → DirectoryIs e directory
  | home {home : String} :
      (∀ value, e.lookup "XDG_CONFIG_HOME" = some value → value.toList.head? ≠ some '/') →
      HomeIs e home → DirectoryIs e (below home ".config")

/-- The place of the settings file: the one that is asked for, or the usual one. -/
inductive LiesAt (e : Environment) : String → Prop where
  | asked {path : String} : e.lookup "DOT_CONFIG" = some path → path ≠ "" → LiesAt e path
  | usual {directory : String} : (∀ value, e.lookup "DOT_CONFIG" = some value → value = "") →
      DirectoryIs e directory → LiesAt e (below directory "dot/config.toml")

/-- A choice counts if it passes, and else the other does. -/
theorem filter_orElse_eq_some_iff {choice other : Option String} {passes : String → Bool}
    {s : String} :
    (choice.filter passes <|> other) = some s ↔
      (choice = some s ∧ passes s = true) ∨
        ((∀ t, choice = some t → passes t = false) ∧ other = some s) := by
  cases choice with
  | none => simp
  | some t =>
    by_cases hst : t = s
    · subst hst
      cases hpasses : passes t <;> simp [hpasses]
    · cases hpasses : passes t <;> simp [hpasses, hst]

theorem startsWith_slash_iff {s : String} :
    startsWith s "/" = true ↔ s.toList.head? = some '/' := by
  have hslash : "/".toList = ['/'] := by decide
  rw [startsWith_iff, hslash, List.head?_eq_some_iff]
  exact Iff.rfl

theorem homeIs_iff {home : String} :
    ((e.lookup "HOME").filter (· ≠ "") <|> e.accountHome) = some home ↔ HomeIs e home := by
  rw [filter_orElse_eq_some_iff]
  simp only [decide_eq_true_eq, decide_eq_false_iff_not, Decidable.not_not]
  constructor
  · rintro (⟨hhome, hne⟩ | ⟨hunset, haccount⟩)
    · exact .own hhome hne
    · exact .account hunset haccount
  · intro h
    cases h with
    | own hhome hne => exact .inl ⟨hhome, hne⟩
    | account hunset haccount => exact .inr ⟨hunset, haccount⟩

theorem directory?_eq_some_iff {directory : String} :
    directory? e = some directory ↔ DirectoryIs e directory := by
  have heq : directory? e = ((e.lookup "XDG_CONFIG_HOME").filter (startsWith · "/") <|>
      ((e.lookup "HOME").filter (· ≠ "") <|> e.accountHome).map (below · ".config")) := by
    rw [directory?]
    split
    · next hown => rw [hown]; rfl
    · next hown => rw [hown]; rfl
  rw [heq, filter_orElse_eq_some_iff]
  simp only [← Bool.not_eq_true, startsWith_slash_iff, Option.map_eq_some_iff, homeIs_iff]
  constructor
  · rintro (⟨hown, habsolute⟩ | ⟨hnone, home, hhome, rfl⟩)
    · exact .own hown habsolute
    · exact .home hnone hhome
  · intro h
    cases h with
    | own hown habsolute => exact .inl ⟨hown, habsolute⟩
    | home hnone hhome => exact .inr ⟨hnone, _, hhome, rfl⟩

theorem path?_eq_some_iff : path? e = some path ↔ LiesAt e path := by
  rw [path?, filter_orElse_eq_some_iff]
  simp only [decide_eq_true_eq, decide_eq_false_iff_not, Decidable.not_not, Option.map_eq_some_iff,
    directory?_eq_some_iff]
  constructor
  · rintro (⟨hasked, hne⟩ | ⟨hunset, directory, hdirectory, rfl⟩)
    · exact .asked hasked hne
    · exact .usual hunset hdirectory
  · intro h
    cases h with
    | asked hasked hne => exact .inl ⟨hasked, hne⟩
    | usual hunset hdirectory => exact .inr ⟨hunset, _, hdirectory, rfl⟩

/-! ## What is loaded -/

theorem load_of_liesAt (h : LiesAt e path) : load e = ofFile (e.file path) := by
  rw [load, path?_eq_some_iff.mpr h]

theorem load_of_nowhere (h : ∀ path, ¬ LiesAt e path) : load e = .ok {} := by
  have hnone : path? e = none :=
    Option.eq_none_iff_forall_ne_some.mpr fun path hpath => h path (path?_eq_some_iff.mp hpath)
  rw [load, hnone]

/-- What lies there gives no settings: it is a directory, it is no text, its text is no document, or
a setting in the document has the wrong form. -/
inductive Unreadable : FileState → Prop where
  | directory : Unreadable .directory
  | octets {content : List UInt8} : Utf8.decode? content = none → Unreadable (.octets content)
  | text {content : List UInt8} {s : String} : Utf8.decode? content = some s →
      Toml.document? s = none → Unreadable (.octets content)
  | document {content : List UInt8} {entries : List (String × Value)} :
      documentOf? content = some entries → ¬ WellFormed entries → Unreadable (.octets content)

theorem exists_ofFile_eq_ok {content : List UInt8} {entries : List (String × Value)}
    (h : documentOf? content = some entries) (hform : WellFormed entries) :
    ∃ settings, ofFile (.octets content) = .ok settings ∧ Follows settings entries := by
  obtain ⟨settings, hsettings⟩ := exists_ofTable?_eq_some_iff.mpr hform
  exact ⟨settings, (ofFile_eq_ok_iff h).mpr hsettings, (ofTable?_eq_some_iff.mp hsettings).2⟩

/-- **What cannot be loaded**: a missing file can, and so can a document in which all settings have
their form. -/
theorem exists_ofFile_eq_error_iff {state : FileState} :
    (∃ why, ofFile state = .error why) ↔ Unreadable state := by
  constructor
  · rintro ⟨why, hwhy⟩
    cases state with
    | missing => cases hwhy
    | directory => exact .directory
    | octets content =>
      cases hs : Utf8.decode? content with
      | none => exact .octets hs
      | some s =>
        cases hentries : Toml.document? s with
        | none => exact .text hs hentries
        | some entries =>
          have hdocument : documentOf? content = some entries := by
            rw [documentOf?, hs, Option.bind_some, hentries]
          refine .document hdocument fun hform => ?_
          obtain ⟨settings, hok, -⟩ := exists_ofFile_eq_ok hdocument hform
          rw [hok] at hwhy
          cases hwhy
  · intro h
    cases h with
    | directory => exact ⟨_, rfl⟩
    | octets hs => exact ⟨.notText, by rw [ofFile, hs]⟩
    | text hs hentries =>
      refine ⟨.malformed, ?_⟩
      simp only [ofFile, hs, ofDocument, hentries, Option.bind_none]
    | document hdocument hform =>
      refine ⟨.malformed, ?_⟩
      have hnone : ofTable? _ = none := Option.eq_none_iff_forall_ne_some.mpr fun settings hs =>
        hform (exists_ofTable?_eq_some_iff.mp ⟨settings, hs⟩)
      rw [ofFile_eq hdocument, hnone, Option.elim_none]

end Toolbox.Settings
