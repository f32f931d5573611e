import MetricQuery.Toml.Document
import MetricQuery.Proofs.Scanning

/-!
# Documents of simple lines

Most documents are made of four sorts of lines: empty ones, comments, headers with one bare name, and entries with a
bare name and a string without escapes. Such a document is read line by line, each line changing the document on its
own: `parse?_lines`. One lemma for each sort of line says what reading it does, whatever follows.
-/

set_option autoImplicit false

namespace MetricQuery.Toml

/-- A line as it is commonly written. -/
inductive Line where
  | blank
  | comment (text : String)
  | header (name : String)
  | entry (name value : String)

namespace Line

/-- The text of a line, with its line feed. -/
def chars : Line → List Char
  | blank => ['\n']
  | comment text => '#' :: (text.toList ++ ['\n'])
  | header name => '[' :: (name.toList ++ [']', '\n'])
  | entry name value => name.toList ++ ' ' :: '=' :: ' ' :: '"' :: (value.toList ++ ['"', '\n'])

/-- A character of a string that stands for itself. -/
def isVerbatim (c : Char) : Bool :=
  isPlain c && decide (c ≠ '"') && decide (c ≠ '\\')

/-- A name that needs no quotes. -/
def isBareName (name : String) : Bool :=
  decide (name ≠ "") && name.toList.all isBare

/-- Names are bare, and texts hold nothing that would end them or need an escape. -/
def isSimple : Line → Bool
  | blank => true
  | comment text => text.toList.all isPlain
  | header name => isBareName name
  | entry name value => isBareName name && value.toList.all isVerbatim

/-- What a line does to a document. -/
def apply (doc : Document) : Line → Option Document
  | blank => some doc
  | comment _ => some doc
  | header name => (openTable ⟨[], name⟩ doc.entries).map fun entries => ⟨entries, [name]⟩
  | entry name value =>
    (descend false (addEntry ⟨[], name⟩ (.string value)) doc.current .header doc.entries).map
      fun entries => { doc with entries }

end Line

/-! ## Names and strings -/

section Names

variable {name : String} {rest : List Char}

/-- A bare name is not empty, and all of it is bare. -/
theorem exists_bare_cons (h : Line.isBareName name = true) :
    ∃ c cs, name.toList = c :: cs ∧ isBare c = true ∧ ∀ d ∈ name.toList, isBare d = true := by
  rw [Line.isBareName, Bool.and_eq_true, decide_eq_true_eq, List.all_eq_true] at h
  obtain ⟨c, cs, hname⟩ := List.exists_cons_of_ne_nil (fun hnil => h.1 (String.toList_eq_nil_iff.mp hnil))
  exact ⟨c, cs, hname, h.2 c (hname ▸ List.mem_cons_self), h.2⟩

/-- A bare character is no white space. -/
theorem isBlank_of_isBare {c : Char} (h : isBare c = true) : isBlank c = false := by
  cases hblank : isBlank c with
  | false => rfl
  | true =>
    rw [isBlank, Bool.or_eq_true, decide_eq_true_eq, decide_eq_true_eq] at hblank
    rcases hblank with rfl | rfl <;> cases h

/-- Nothing is skipped before a character that is no white space. -/
theorem skipBlanks_cons {c : Char} (h : isBlank c = false) : skipBlanks (c :: rest) = c :: rest := by
  rw [skipBlanks, List.dropWhile_cons_of_neg (by simp [h])]

/-- A bare name is read up to what cannot be part of it. -/
theorem readName?_append (h : Line.isBareName name = true) (hrest : Stops isBare rest) :
    readName? (skipBlanks (name.toList ++ rest)) = some (name, rest) := by
  obtain ⟨c, cs, hname, hc, hall⟩ := exists_bare_cons h
  have htake : (name.toList ++ rest).takeWhile isBare = name.toList := takeWhile_append_of_stops hall hrest
  have hdrop : (name.toList ++ rest).dropWhile isBare = rest := dropWhile_append_of_stops hall hrest
  rw [hname, List.cons_append] at htake hdrop ⊢
  rw [skipBlanks_cons (isBlank_of_isBare hc)]
  unfold readName?
  split
  · rename_i heq
    exact absurd (List.cons.inj heq).1 (ne_of_class hc rfl)
  · rename_i heq
    exact absurd (List.cons.inj heq).1 (ne_of_class hc rfl)
  · rw [htake, hdrop]
    simp [← hname]

/-- A key of one name. -/
theorem readKey?_append (h : Line.isBareName name = true) (hrest : Stops isBare rest)
    (hdot : (skipBlanks rest).head? ≠ some '.') :
    readKey? (name.toList ++ rest) = some (⟨[], name⟩, skipBlanks rest) := by
  unfold readKey? keyLimit readNames?
  rw [readName?_append h hrest, Option.bind_eq_bind, Option.bind_some]
  dsimp only
  split
  · rename_i heq
    exact absurd (by rw [heq]; rfl) hdot
  · rfl

/-- A string without escapes. -/
theorem readBasic?_append {value : List Char} (h : ∀ c ∈ value, Line.isVerbatim c = true) {steps : Nat}
    (hsteps : value.length < steps) : readBasic? steps (value ++ '"' :: rest) = some (value, rest) := by
  obtain ⟨steps, rfl⟩ : ∃ n, steps = n + 1 := ⟨steps - 1, by omega⟩
  induction value generalizing steps with
  | nil => rw [List.nil_append, readBasic?, if_pos rfl]
  | cons c value ih =>
    rw [List.forall_mem_cons, Line.isVerbatim, Bool.and_eq_true, Bool.and_eq_true, decide_eq_true_eq,
      decide_eq_true_eq] at h
    obtain ⟨⟨⟨hplain, hquote⟩, hslash⟩, hvalue⟩ := h
    rw [List.length_cons] at hsteps
    obtain ⟨steps, rfl⟩ : ∃ n, steps = n + 1 := ⟨steps - 1, by omega⟩
    have hlater := ih hvalue steps (by omega)
    rw [List.cons_append, readBasic?, if_neg hquote, if_neg hslash, if_pos hplain, hlater]
    rfl

/-- A string as a value. -/
theorem readValue?_append {value : List Char} (h : ∀ c ∈ value, Line.isVerbatim c = true)
    (hrest : rest.head? ≠ some '"') :
    readValue? nestingLimit ('"' :: (value ++ '"' :: rest)) = some (.string (String.ofList value), rest) := by
  have hlength : value.length < (value ++ '"' :: rest).length := by
    rw [List.length_append, List.length_cons]
    omega
  have htext : readText? ('"' :: (value ++ '"' :: rest)) = some (value, rest) := by
    unfold readText?
    split
    · -- Three quotes in a row would need one in the value or behind it.
      rename_i heq
      cases value with
      | nil =>
        rw [List.nil_append] at heq
        have htail := (List.cons.inj (List.cons.inj heq).2).2
        exact absurd (by rw [htail]; rfl) hrest
      | cons c value =>
        have hc := (List.cons.inj (List.cons.inj heq).2).1
        have hverbatim := h c List.mem_cons_self
        rw [hc] at hverbatim
        cases hverbatim
    · rename_i heq
      cases (List.cons.inj heq).1
    · rename_i heq
      rw [← (List.cons.inj heq).2]
      exact readBasic?_append h hlength
    · rename_i heq
      cases (List.cons.inj heq).1
    · rename_i hquote _
      exact absurd rfl (hquote _)
  have hsimple : readValue? nestingLimit ('"' :: (value ++ '"' :: rest)) =
      readSimple? ('"' :: (value ++ '"' :: rest)) := rfl
  rw [hsimple, readSimple?, if_pos (.inl rfl), htext]
  rfl

end Names

/-! ## Lines -/

namespace Line

variable {line : Line} {rest : List Char} {doc : Document}

/-- A header is read up to the end of its line and opens its table. -/
theorem readHeader?_append {name : String} (h : isBareName name = true) :
    doc.readHeader? (name.toList ++ ']' :: '\n' :: rest) =
      ((header name).apply doc).map fun changed => (changed, rest) := by
  obtain ⟨c, cs, hname, hc, -⟩ := exists_bare_cons h
  have hkey : readKey? (name.toList ++ ']' :: '\n' :: rest) = some (⟨[], name⟩, ']' :: '\n' :: rest) :=
    readKey?_append h (stops_cons.mpr rfl) (by rw [skipBlanks_cons rfl]; simp)
  unfold Document.readHeader?
  split
  · rename_i heq
    rw [hname] at heq
    exact absurd (List.cons.inj heq).1 (ne_of_class hc rfl)
  · rw [hkey]
    have hline : finishLine? ('\n' :: rest) = some rest := rfl
    simp only [apply, Option.bind_eq_bind, Option.bind_some, hline, Key.names, List.nil_append]
    cases openTable ⟨[], name⟩ doc.entries <;> rfl

/-- An entry is read up to the end of its line and goes into its table. -/
theorem readEntry?_append {name value : String} (hname : isBareName name = true)
    (hvalue : value.toList.all isVerbatim = true) :
    doc.readEntry? ((entry name value).chars ++ rest) =
      ((entry name value).apply doc).map fun changed => (changed, rest) := by
  have hkey : readKey? (name.toList ++ ' ' :: '=' :: ' ' :: '"' :: (value.toList ++ '"' :: '\n' :: rest)) =
      some (⟨[], name⟩, '=' :: ' ' :: '"' :: (value.toList ++ '"' :: '\n' :: rest)) :=
    readKey?_append hname (stops_cons.mpr rfl) (by simp [skipBlanks, isBlank])
  have hstring : readValue? nestingLimit (skipBlanks (' ' :: '"' :: (value.toList ++ '"' :: '\n' :: rest))) =
      some (.string value, '\n' :: rest) := by
    have hread : readValue? nestingLimit ('"' :: (value.toList ++ '"' :: '\n' :: rest)) =
        some (.string (String.ofList value.toList), '\n' :: rest) :=
      readValue?_append (List.all_eq_true.mp hvalue) (by simp)
    rwa [String.ofList_toList] at hread
  have hline : finishLine? ('\n' :: rest) = some rest := rfl
  have hchars : (entry name value).chars ++ rest =
      name.toList ++ ' ' :: '=' :: ' ' :: '"' :: (value.toList ++ '"' :: '\n' :: rest) := by
    simp [chars]
  rw [hchars, Document.readEntry?, hkey]
  simp only [apply, Option.bind_eq_bind, Option.bind_some, hstring, hline]
  cases descend false (addEntry ⟨[], name⟩ (.string value)) doc.current .header doc.entries <;> rfl

/-- A simple line is read whole, and does what it says. -/
theorem readLines?_append (h : line.isSimple = true) (steps : Nat) :
    Document.readLines? (steps + 1) doc (line.chars ++ rest) =
      (line.apply doc).bind fun changed => Document.readLines? steps changed rest := by
  cases line with
  | blank => rfl
  | comment text =>
    have hdrop : (text.toList ++ '\n' :: rest).dropWhile isPlain = '\n' :: rest :=
      dropWhile_append_of_stops (List.all_eq_true.mp h) (stops_cons.mpr rfl)
    have hchars : (comment text).chars ++ rest = '#' :: (text.toList ++ '\n' :: rest) := by simp [chars]
    rw [hchars, Document.readLines?, skipBlanks_cons rfl]
    simp only [hdrop]
    rfl
  | header name =>
    have hchars : (header name).chars ++ rest = '[' :: (name.toList ++ ']' :: '\n' :: rest) := by simp [chars]
    rw [hchars, Document.readLines?, skipBlanks_cons rfl]
    simp only [readHeader?_append h, Option.bind_eq_bind, Option.bind_map]
    rfl
  | entry name value =>
    rw [isSimple, Bool.and_eq_true] at h
    obtain ⟨c, cs, hname, hc, -⟩ := exists_bare_cons h.1
    have hread : doc.readEntry? ((entry name value).chars ++ rest) =
        ((entry name value).apply doc).map fun changed => (changed, rest) := readEntry?_append h.1 h.2
    obtain ⟨text, htext⟩ : ∃ text, (entry name value).chars ++ rest = c :: text := by
      rw [chars, hname]
      exact ⟨_, rfl⟩
    have hline : newline? (c :: text) = none := by
      unfold newline?
      split
      · rename_i heq
        exact absurd (List.cons.inj heq).1 (ne_of_class hc rfl)
      · rename_i heq
        exact absurd (List.cons.inj heq).1 (ne_of_class hc rfl)
      · rfl
    rw [htext] at hread ⊢
    rw [Document.readLines?, skipBlanks_cons (isBlank_of_isBare hc)]
    split
    · rename_i heq
      cases heq
    · rename_i heq
      exact absurd (List.cons.inj heq).1 (ne_of_class hc rfl)
    · rename_i heq
      exact absurd (List.cons.inj heq).1 (ne_of_class hc rfl)
    · simp only [hline, hread, Option.bind_eq_bind, Option.bind_map]
      rfl

/-- A line has at least its line feed. -/
theorem chars_ne_nil (line : Line) : line.chars ≠ [] := by
  cases line <;> simp [chars]

end Line

/-! ## Documents -/

section Lines

variable {lines : List Line}

/-- Lines are read one after the other, as long as there are steps for them. -/
theorem readLines?_flatMap (h : ∀ line ∈ lines, line.isSimple = true) {steps : Nat} (hsteps : lines.length ≤ steps)
    (doc : Document) : Document.readLines? steps doc (lines.flatMap Line.chars) = lines.foldlM Line.apply doc := by
  induction lines generalizing steps doc with
  | nil => cases steps <;> rfl
  | cons line lines ih =>
    rw [List.forall_mem_cons] at h
    rw [List.length_cons] at hsteps
    obtain ⟨steps, rfl⟩ : ∃ n, steps = n + 1 := ⟨steps - 1, by omega⟩
    rw [List.flatMap_cons, Line.readLines?_append h.1, List.foldlM_cons]
    congr 1
    funext changed
    exact ih h.2 (by omega) changed

/-- There are no more lines than characters. -/
theorem length_le_length_flatMap (lines : List Line) : lines.length ≤ (lines.flatMap Line.chars).length := by
  induction lines with
  | nil => exact Nat.le_refl 0
  | cons line lines ih =>
    have hline := List.length_pos_iff.mpr line.chars_ne_nil
    rw [List.flatMap_cons, List.length_append, List.length_cons]
    omega

/-- Simple lines do not begin with a byte order mark. -/
theorem dropByteOrderMark_flatMap (h : ∀ line ∈ lines, line.isSimple = true) :
    dropByteOrderMark (lines.flatMap Line.chars) = lines.flatMap Line.chars := by
  cases lines with
  | nil => rfl
  | cons line lines =>
    cases line with
    | blank => rfl
    | comment text => rfl
    | header name => rfl
    | entry name value =>
      have hline := h _ List.mem_cons_self
      rw [Line.isSimple, Bool.and_eq_true] at hline
      obtain ⟨c, cs, hname, hc, -⟩ := exists_bare_cons hline.1
      rw [List.flatMap_cons, Line.chars, hname]
      unfold dropByteOrderMark
      split
      · rename_i heq
        exact absurd (List.cons.inj heq).1 (ne_of_class hc rfl)
      · rfl

/-- The entries of a document of simple lines are those that its lines make. -/
theorem parse?_lines (h : ∀ line ∈ lines, line.isSimple = true) :
    parse? (lines.flatMap Line.chars) = (lines.foldlM Line.apply {}).map Document.entries := by
  have hsteps : lines.length ≤ (lines.flatMap Line.chars).length + 1 :=
    Nat.le_succ_of_le (length_le_length_flatMap lines)
  rw [parse?, dropByteOrderMark_flatMap h, readLines?_flatMap h hsteps]
  cases lines.foldlM Line.apply {} <;> rfl

end Lines

end MetricQuery.Toml
