import Toolbox.Proofs.Report.Recording
import Toolbox.Proofs.Text.Affix

/-!
# Records as others read them

The text form of a report is meant for programs that read comma separated records, and those go by a
grammar: a record is closed by a newline, with or without a carriage return before it; between commas
stand its fields; and a field that holds a comma, a double quote, a newline or a carriage return
stands between quotes, with its quotes doubled. `Record.IsRecord` is that grammar. It was written
without a look at how records are put together here, and no text is a record of two lists of fields
(`IsRecord.unique`).

Fields are put between quotes for three of these four characters. A field with a carriage return and
none of the others goes without (`exposesReturn`), and `isRecord_write_iff` says what comes of it: the
text is no record at all, unless the carriage return is the last character of the last field, where it
is taken for a part of the line's end and lost. Without such a field a record reads back, whatever it
holds.
-/

namespace Toolbox

open Text

namespace Text.Record

/-! ## The grammar -/

/-- A character that stands between quotes only. -/
def isReserved (c : Char) : Bool :=
  c = ',' || c = '"' || c = '\n' || c = '\r'

/-- What stands between two quotes, and what it means: a quote is written twice, every other
character as it is. -/
inductive Quoted : List Char → List Char → Prop where
  | nil : Quoted [] []
  | quote {written meant : List Char} (h : Quoted written meant) :
      Quoted ('"' :: '"' :: written) ('"' :: meant)
  | char {c : Char} {written meant : List Char} (hc : c ≠ '"') (h : Quoted written meant) :
      Quoted (c :: written) (c :: meant)

/-- A field as it stands in a record, and what it means. -/
inductive Field : List Char → List Char → Prop where
  | plain {cs : List Char} (h : ∀ c ∈ cs, isReserved c = false) : Field cs cs
  | quoted {written meant : List Char} (h : Quoted written meant) :
      Field ('"' :: written ++ ['"']) meant

/-- How the line of a record ends. -/
def lineEnds : List (List Char) :=
  [['\n'], ['\r', '\n']]

/-- A record with its line's end, and what its fields mean. -/
inductive Fields : List Char → List (List Char) → Prop where
  | last {written meant ending : List Char} (h : Field written meant) (hend : ending ∈ lineEnds) :
      Fields (written ++ ending) [meant]
  | more {written meant rest : List Char} {others : List (List Char)} (h : Field written meant)
      (hrest : Fields rest others) : Fields (written ++ ',' :: rest) (meant :: others)

/-- The text is one record, and these are its fields. -/
def IsRecord (s : String) (fields : List String) : Prop :=
  Fields s.toList (fields.map String.toList)

/-! ## One field at a time -/

/-- A character that can follow a field. -/
def endsField (c : Char) : Bool :=
  c = ',' || c = '\n' || c = '\r'

theorem isReserved_of_endsField {c : Char} (h : endsField c = true) :
    isReserved c = true ∧ c ≠ '"' := by
  simp only [endsField, Bool.or_eq_true, decide_eq_true_eq] at h
  rcases h with (rfl | rfl) | rfl <;> decide

theorem Quoted.unique {w m w' m' : List Char} {c c' : Char} {r r' : List Char} (h : Quoted w m)
    (h' : Quoted w' m') (hc : c ≠ '"') (hc' : c' ≠ '"')
    (heq : w ++ '"' :: c :: r = w' ++ '"' :: c' :: r') : m = m' ∧ c :: r = c' :: r' := by
  induction h generalizing w' m' with
  | nil =>
    cases h' with
    | nil => simpa using heq
    | quote h' =>
      -- two quotes in a row are one that is meant, never the end
      simp only [List.nil_append, List.cons_append, List.cons.injEq] at heq
      exact absurd heq.2.1 hc
    | char hd h' =>
      simp only [List.nil_append, List.cons_append, List.cons.injEq] at heq
      exact absurd heq.1.symm hd
  | quote h ih =>
    cases h' with
    | nil =>
      simp only [List.nil_append, List.cons_append, List.cons.injEq] at heq
      exact absurd heq.2.1.symm hc'
    | quote h' =>
      simp only [List.cons_append, List.cons.injEq, true_and] at heq
      obtain ⟨rfl, hrest⟩ := ih h' heq
      exact ⟨rfl, hrest⟩
    | char hd h' =>
      simp only [List.cons_append, List.cons.injEq] at heq
      exact absurd heq.1.symm hd
  | char hd h ih =>
    cases h' with
    | nil =>
      simp only [List.nil_append, List.cons_append, List.cons.injEq] at heq
      exact absurd heq.1 hd
    | quote h' =>
      simp only [List.cons_append, List.cons.injEq] at heq
      exact absurd heq.1 hd
    | char hd' h' =>
      simp only [List.cons_append, List.cons.injEq] at heq
      obtain ⟨rfl, heq⟩ := heq
      obtain ⟨rfl, hrest⟩ := ih h' heq
      exact ⟨rfl, hrest⟩

theorem plain_unique {cs cs' : List Char} {c c' : Char} {r r' : List Char}
    (h : ∀ d ∈ cs, isReserved d = false) (h' : ∀ d ∈ cs', isReserved d = false)
    (hc : isReserved c = true) (hc' : isReserved c' = true) (heq : cs ++ c :: r = cs' ++ c' :: r') :
    cs = cs' ∧ c :: r = c' :: r' := by
  induction cs generalizing cs' with
  | nil =>
    cases cs' with
    | nil => exact ⟨rfl, heq⟩
    | cons d cs' =>
      obtain ⟨rfl, -⟩ := List.cons.inj heq
      rw [h' c List.mem_cons_self] at hc
      cases hc
  | cons d cs ih =>
    cases cs' with
    | nil =>
      obtain ⟨rfl, -⟩ := List.cons.inj heq
      rw [h d List.mem_cons_self] at hc'
      cases hc'
    | cons d' cs' =>
      obtain ⟨rfl, htail⟩ := List.cons.inj heq
      obtain ⟨rfl, hrest⟩ := ih (fun e he => h e (List.mem_cons_of_mem _ he))
        (fun e he => h' e (List.mem_cons_of_mem _ he)) htail
      exact ⟨rfl, hrest⟩

/-- A text without reserved characters does not begin with a quote. -/
theorem plain_ne_quoted {cs : List Char} {c : Char} {r t : List Char}
    (h : ∀ d ∈ cs, isReserved d = false) (hc : c ≠ '"') : cs ++ c :: r ≠ '"' :: t := by
  intro heq
  cases cs with
  | nil => exact hc (List.cons.inj heq).1
  | cons d cs =>
    obtain ⟨rfl, -⟩ := List.cons.inj heq
    have hquote := h '"' List.mem_cons_self
    cases hquote

/-- **A field is read in one way**, once it is known what can follow it. -/
theorem Field.unique {w m w' m' : List Char} {c c' : Char} {r r' : List Char} (h : Field w m)
    (h' : Field w' m') (hc : endsField c = true) (hc' : endsField c' = true)
    (heq : w ++ c :: r = w' ++ c' :: r') : m = m' ∧ c :: r = c' :: r' := by
  obtain ⟨hres, hquote⟩ := isReserved_of_endsField hc
  obtain ⟨hres', hquote'⟩ := isReserved_of_endsField hc'
  cases h with
  | plain h =>
    cases h' with
    | plain h' => exact plain_unique h h' hres hres' heq
    | quoted h' => exact absurd heq (plain_ne_quoted h hquote)
  | quoted h =>
    cases h' with
    | plain h' => exact absurd heq.symm (plain_ne_quoted h' hquote')
    | quoted h' =>
      simp only [List.cons_append, List.append_assoc, List.nil_append, List.cons.injEq,
        true_and] at heq
      exact h.unique h' hquote hquote' heq

/-- A record is a field with what ends it, and then nothing or the record of the other fields. -/
theorem fields_iff {t : List Char} {ms : List (List Char)} :
    Fields t ms ↔ ∃ w m c r, Field w m ∧ endsField c = true ∧ t = w ++ c :: r ∧
      ((c :: r ∈ lineEnds ∧ ms = [m]) ∨ (c = ',' ∧ ∃ others, ms = m :: others ∧ Fields r others)) := by
  constructor
  · intro h
    cases h with
    | @last w m ending h hend =>
      rcases List.mem_pair.mp hend with rfl | rfl
      · exact ⟨w, m, _, _, h, by decide, rfl, .inl ⟨hend, rfl⟩⟩
      · exact ⟨w, m, _, _, h, by decide, rfl, .inl ⟨hend, rfl⟩⟩
    | @more w m rest others h hrest =>
      exact ⟨w, m, ',', rest, h, by decide, rfl, .inr ⟨rfl, others, rfl, hrest⟩⟩
  · rintro ⟨w, m, c, r, h, -, rfl, (⟨hend, rfl⟩ | ⟨rfl, others, rfl, hrest⟩)⟩
    · exact .last h hend
    · exact .more h hrest

/-- **What a record that begins with a known field is.** -/
theorem fields_append_iff {w m : List Char} {c : Char} {r : List Char} {ms : List (List Char)}
    (h : Field w m) (hc : endsField c = true) :
    Fields (w ++ c :: r) ms ↔
      (c :: r ∈ lineEnds ∧ ms = [m]) ∨ (c = ',' ∧ ∃ others, ms = m :: others ∧ Fields r others) := by
  rw [fields_iff]
  constructor
  · rintro ⟨w', m', c', r', h', hc', heq, hcases⟩
    obtain ⟨rfl, hrest⟩ := h.unique h' hc hc' heq
    obtain ⟨rfl, rfl⟩ := List.cons.inj hrest
    exact hcases
  · intro hcases
    exact ⟨w, m, c, r, h, hc, rfl, hcases⟩

theorem fields_newline_iff {w m : List Char} {ms : List (List Char)} (h : Field w m) :
    Fields (w ++ ['\n']) ms ↔ ms = [m] := by
  have hcomma : '\n' ≠ ',' := by decide
  simp [fields_append_iff h, endsField, lineEnds, hcomma]

theorem fields_comma_iff {w m r : List Char} {ms : List (List Char)} (h : Field w m) :
    Fields (w ++ ',' :: r) ms ↔ ∃ others, ms = m :: others ∧ Fields r others := by
  simp [fields_append_iff h, endsField, lineEnds]

theorem fields_return_iff {w m r : List Char} {ms : List (List Char)} (h : Field w m) :
    Fields (w ++ '\r' :: r) ms ↔ r = ['\n'] ∧ ms = [m] := by
  simp [fields_append_iff h, endsField, lineEnds]

/-- **No text is a record in two ways.** -/
theorem Fields.unique {t : List Char} {ms ms' : List (List Char)} (h : Fields t ms)
    (h' : Fields t ms') : ms = ms' := by
  induction h generalizing ms' with
  | @last w m ending h hend =>
    rcases List.mem_pair.mp hend with rfl | rfl
    · exact ((fields_newline_iff h).mp h').symm
    · exact ((fields_return_iff h).mp h').2.symm
  | more h hrest ih =>
    obtain ⟨others, rfl, hothers⟩ := (fields_comma_iff h).mp h'
    rw [ih hothers]

theorem map_toList_eq_iff {read fields : List String} :
    read.map String.toList = fields.map String.toList ↔ read = fields :=
  (List.map_injective_iff.mpr fun _ _ => String.toList_inj.mp).eq_iff

theorem IsRecord.unique {s : String} {fields fields' : List String} (h : IsRecord s fields)
    (h' : IsRecord s fields') : fields = fields' :=
  map_toList_eq_iff.mp (Fields.unique h h')

/-! ## What is written -/

/-- A field that holds a carriage return and is written without quotes. -/
def exposesReturn (s : String) : Bool :=
  holds '\r' s && !s.toList.any wantsQuotes

theorem isReserved_eq (c : Char) : isReserved c = (wantsQuotes c || c = '\r') := rfl

theorem quoted_doubleQuotes (cs : List Char) : Quoted (doubleQuotes cs) cs := by
  induction cs with
  | nil => exact .nil
  | cons c cs ih =>
    rw [doubleQuotes, List.flatMap_cons, ← doubleQuotes]
    split
    case isTrue hc =>
      subst hc
      exact .quote ih
    case isFalse hc => exact .char hc ih

/-- A field is written as the grammar has it, unless it exposes a carriage return. -/
theorem field_toList {s : String} (h : exposesReturn s = false) :
    Field (field s).toList s.toList := by
  rw [field]
  split
  case isTrue hquotes =>
    rw [String.toList_ofList]
    exact .quoted (quoted_doubleQuotes _)
  case isFalse hquotes =>
    refine .plain ?_
    intro c hc
    rw [Bool.not_eq_true] at hquotes
    rw [exposesReturn, hquotes, Bool.not_false, Bool.and_true, holds_eq_false_iff] at h
    have hwants : wantsQuotes c = false := by simpa using List.any_eq_false.mp hquotes c hc
    rw [isReserved_eq, hwants, Bool.false_or, decide_eq_false_iff_not]
    rintro rfl
    exact h hc

/-- A field that exposes a carriage return stands as it is, and its first carriage return is its first
reserved character. -/
theorem of_exposesReturn {s : String} (h : exposesReturn s = true) :
    field s = s ∧ ∃ front back, s.toList = front ++ '\r' :: back ∧
      ∀ c ∈ front, isReserved c = false := by
  rw [exposesReturn, Bool.and_eq_true, Bool.not_eq_true'] at h
  obtain ⟨hreturn, hquotes⟩ := h
  have hwants : ∀ c ∈ s.toList, wantsQuotes c = false := by simpa using hquotes
  refine ⟨by rw [field, if_neg (by simp [hquotes])], ?_⟩
  cases hcut : cutList '\r' s.toList with
  | none =>
    rw [holds, List.contains_iff_mem] at hreturn
    exact absurd hreturn (cutList_eq_none_iff.mp hcut)
  | some p =>
    obtain ⟨hs, hfront⟩ := cutList_eq_some_iff.mp hcut
    refine ⟨p.1, p.2, hs, ?_⟩
    intro c hc
    rw [isReserved_eq, hwants c (by simp [hs, hc]), Bool.false_or, decide_eq_false_iff_not]
    rintro rfl
    exact hfront hc

theorem toList_write_singleton (s : String) : (write [s]).toList = (field s).toList ++ ['\n'] := by
  simp [write, joinWith]

theorem toList_write_cons (s t : String) (rest : List String) :
    (write (s :: t :: rest)).toList = (field s).toList ++ ',' :: (write (t :: rest)).toList := by
  simp [write, joinWith]

/-- What is read where these fields were written. Each field is read as it is; only a last field that
would be plain without the carriage return at its end loses it. -/
inductive ReadsAs : List String → List String → Prop where
  | last {s : String} (h : exposesReturn s = false) : ReadsAs [s] [s]
  | cut {s : String} (h : ∀ c ∈ s.toList, isReserved c = false) : ReadsAs [s ++ "\r"] [s]
  | more {s : String} {fields read : List String} (h : exposesReturn s = false)
      (hrest : ReadsAs fields read) : ReadsAs (s :: fields) (s :: read)

theorem exposesReturn_append_return {s : String} (h : ∀ c ∈ s.toList, isReserved c = false) :
    exposesReturn (s ++ "\r") = true := by
  have hwants : ∀ c ∈ s.toList, wantsQuotes c = false := by
    intro c hc
    have hreserved := h c hc
    rw [isReserved_eq, Bool.or_eq_false_iff] at hreserved
    exact hreserved.1
  have hreturn : wantsQuotes '\r' = false := by decide
  simpa [exposesReturn, holds, hreturn] using hwants

theorem isRecord_write_singleton_iff (s : String) (read : List String) :
    IsRecord (write [s]) read ↔ ReadsAs [s] read := by
  rw [IsRecord, toList_write_singleton]
  cases hexposed : exposesReturn s with
  | false =>
    rw [fields_newline_iff (field_toList hexposed), ← List.map_singleton, map_toList_eq_iff]
    constructor
    · rintro rfl
      exact .last hexposed
    · intro h
      cases h with
      | last h => rfl
      | cut h =>
        rw [exposesReturn_append_return h] at hexposed
        cases hexposed
      | more h hrest => cases hrest
  | true =>
    obtain ⟨hself, front, back, hs, hfront⟩ := of_exposesReturn hexposed
    rw [hself, hs, List.append_assoc, List.cons_append, fields_return_iff (.plain hfront)]
    constructor
    · rintro ⟨hback, hread⟩
      have hread : read = [String.ofList front] := by
        rw [← map_toList_eq_iff, hread, List.map_singleton, String.toList_ofList]
      have hback : back = [] := by simpa using hback
      have hs : s = String.ofList front ++ "\r" := by
        rw [← String.toList_inj, hs, hback]
        simp
      rw [hread, hs]
      exact .cut (by simpa using hfront)
    · intro h
      cases h with
      | last h =>
        rw [h] at hexposed
        cases hexposed
      | @cut s h =>
        have hreturn : "\r".toList = ['\r'] := by decide
        rw [String.toList_append, hreturn] at hs
        obtain ⟨rfl, hrest⟩ := plain_unique h hfront (by decide) (by decide) hs
        obtain ⟨-, rfl⟩ := List.cons.inj hrest
        exact ⟨rfl, rfl⟩
      | more h hrest => cases hrest

/-- **What comes of a record that is read back.** -/
theorem isRecord_write_iff {fields : List String} (h : fields ≠ []) (read : List String) :
    IsRecord (write fields) read ↔ ReadsAs fields read := by
  induction fields generalizing read with
  | nil => exact absurd rfl h
  | cons s rest ih =>
    cases rest with
    | nil => exact isRecord_write_singleton_iff s read
    | cons t rest =>
      rw [IsRecord, toList_write_cons]
      cases hexposed : exposesReturn s with
      | false =>
        rw [fields_comma_iff (field_toList hexposed)]
        constructor
        · rintro ⟨others, hread, hothers⟩
          obtain ⟨s', read, rfl, hs, rfl⟩ := List.map_eq_cons_iff.mp hread
          rw [String.toList_inj.mp hs]
          exact .more hexposed ((ih (by simp) read).mp hothers)
        · intro h
          cases h with
          | @more _ _ read _ hrest =>
            exact ⟨_, List.map_cons, (ih (by simp) read).mpr hrest⟩
      | true =>
        -- the comma behind the field shows that the line does not end at the carriage return
        obtain ⟨hself, front, back, hs, hfront⟩ := of_exposesReturn hexposed
        rw [hself, hs, List.append_assoc, List.cons_append, fields_return_iff (.plain hfront)]
        constructor
        · rintro ⟨hback, -⟩
          have hcomma : ',' ∈ ['\n'] := by
            rw [← hback]
            simp
          exact absurd hcomma (by decide)
        · intro h
          cases h with
          | more h hrest =>
            rw [h] at hexposed
            cases hexposed

theorem readsAs_three_iff {a b c : String} {read : List String} :
    ReadsAs [a, b, c] read ↔ exposesReturn a = false ∧ exposesReturn b = false ∧
      ((exposesReturn c = false ∧ read = [a, b, c]) ∨
        ∃ last, c = last ++ "\r" ∧ (∀ d ∈ last.toList, isReserved d = false) ∧
          read = [a, b, last]) := by
  constructor
  · intro h
    cases h with
    | more ha h =>
      cases h with
      | more hb h =>
        cases h with
        | last hc => exact ⟨ha, hb, .inl ⟨hc, rfl⟩⟩
        | cut hlast => exact ⟨ha, hb, .inr ⟨_, rfl, hlast, rfl⟩⟩
        | more hc h => cases h
  · rintro ⟨ha, hb, (⟨hc, rfl⟩ | ⟨last, rfl, hlast, rfl⟩)⟩
    · exact .more ha (.more hb (.last hc))
    · exact .more ha (.more hb (.cut hlast))

end Text.Record

namespace Report.Invocation

open Text.Record

/-- An option in a record: a text stands there as it is, any other value as JSON on one line. -/
def optionText (key : String) : Json → String
  | .str s => key ++ "=" ++ s
  | v => key ++ "=" ++ v.compact

theorem optionText_eq (key : String) (v : Json) : optionText key v = key ++ "=" ++ valueText v := by
  cases v <;> rfl

/-- **The text form is one record of three fields, but for a carriage return without quotes.** The
fields are the command, the positional arguments with a space between them, and the options in key
order with a semicolon between them, and nothing else can be read. Where one of the three exposes a
carriage return the text is no record, or, if that is its last character, a record without it. -/
theorem text_isRecord_iff (command : String) (steps : List Step) (read : List String) :
    let i := ofSteps command steps
    let args := joinWith " " i.args
    let opts := joinWith ";" (i.opts.map fun o => optionText o.1 o.2)
    i.opts.InOrder ∧
      (IsRecord i.text read ↔
        exposesReturn command = false ∧ exposesReturn args = false ∧
          ((exposesReturn opts = false ∧ read = [command, args, opts]) ∨
            ∃ last, opts = last ++ "\r" ∧ (∀ c ∈ last.toList, isReserved c = false) ∧
              read = [command, args, last])) := by
  intro i args opts
  refine ⟨inOrder_ofSteps command steps, ?_⟩
  have hfields : i.fields = [command, args, opts] := by
    simp only [opts, optionText_eq]
    rw [fields, command_ofSteps]
  rw [text, hfields, isRecord_write_iff (by simp), readsAs_three_iff]

/-- An argument with a carriage return in it makes a text that is no record, and an option that ends
in one is read without it. -/
theorem return_spoils_text :
    (¬ ∃ read, IsRecord (ofSteps "init" [.arg "a\rb"]).text read) ∧
      IsRecord (ofSteps "init" [.opt "key" (.str "\r")]).text ["init", "", "key="] := by
  constructor
  · rintro ⟨read, h⟩
    have hfields : (ofSteps "init" [.arg "a\rb"]).fields = ["init", "a\rb", ""] := rfl
    rw [text, hfields, isRecord_write_iff (by simp), readsAs_three_iff] at h
    exact absurd h.2.1 (by decide)
  · have hfields : (ofSteps "init" [.opt "key" (.str "\r")]).fields =
        ["init", "", "key=" ++ "\r"] := rfl
    have hkey : "key=".toList = ['k', 'e', 'y', '='] := by decide
    have hplain : ∀ c ∈ "key=".toList, isReserved c = false := by simp [hkey, isReserved]
    rw [text, hfields, isRecord_write_iff (by simp)]
    exact .more (by decide) (.more (by decide) (.cut hplain))

end Report.Invocation

end Toolbox
