import Mathlib
import MetricQuery.Proofs.MatcherArguments
import MetricQuery.Settings.OutputFormat

/-!
# What texts name an output format

A text is compared with the names of the formats after it was put into lower case, and the lower-case form knows all
letters, not only those of ASCII. Still a text names a format exactly when it is the name with any of its letters in
upper case and with white space around it, `OutputFormat.ofText?_names_format`.

The reason lies in the table of lower-case forms. A character outside ASCII is lowered to one outside ASCII, with two
exceptions: the dotted capital I becomes an `i` with a mark behind it, and the sign for kelvin becomes a `k`. So a word
in which neither letter occurs has no upper-case spelling but the one in ASCII, `lowerAfter_eq_iff`, wherever in a text
it stands. The names of the formats are such words.
-/

set_option autoImplicit false

namespace MetricQuery

namespace Text

/-! ## The table of lower-case forms -/

/-- The run of the ASCII letters comes first, and all the others begin outside ASCII. -/
theorem exists_lowerRuns_eq :
    ∃ runs, lowerRuns = ⟨0x41, 0x5a, 1, 32, 0⟩ :: runs ∧ ∀ r ∈ runs, 128 ≤ r.first :=
  ⟨lowerRuns.tail, rfl, by decide +kernel⟩

/-- A run that maps characters outside ASCII maps them to such, unless it is that of the sign for kelvin. -/
theorem lowerRun_cases :
    ∀ r ∈ lowerRuns, r.last < 128 ∨ 128 ≤ r.first + r.up - r.down ∨
      r.first = 0x212a ∧ r.last = 0x212a ∧ r.up + 8383 = r.down := by
  decide +kernel

/-- The capitals are those of ASCII. -/
theorem isUpper_iff {c : Char} : c.isUpper = true ↔ 0x41 ≤ c.toNat ∧ c.toNat ≤ 0x5a := by
  simp [Char.isUpper, UInt32.le_iff_toNat_le]

/-- In ASCII the lower-case form is the usual one. -/
theorem lowerChar_of_ascii {c : Char} (h : c.toNat < 128) : lowerChar c = [c.toLower] := by
  obtain ⟨runs, hruns, hfirst⟩ := exists_lowerRuns_eq
  have hdotted : c.toNat ≠ 0x130 := by omega
  unfold lowerChar
  rw [if_neg hdotted, hruns, List.find?_cons]
  by_cases hupper : c.isUpper = true
  · have hmaps : CaseRun.maps ⟨0x41, 0x5a, 1, 32, 0⟩ c.toNat = true := by
      simpa [CaseRun.maps, Nat.mod_one] using isUpper_iff.mp hupper
    rw [hmaps, Char.toLower_eq_of_isUpper hupper]
    simp
  · have hmaps : CaseRun.maps ⟨0x41, 0x5a, 1, 32, 0⟩ c.toNat = false := by
      simpa [CaseRun.maps, Nat.mod_one] using mt isUpper_iff.mpr hupper
    have hnone : runs.find? (fun r => r.maps c.toNat) = none := by
      rw [List.find?_eq_none]
      intro r hr hr'
      have hle := hfirst r hr
      simp only [CaseRun.maps, decide_eq_true_eq] at hr'
      omega
    rw [hmaps, hnone, Char.toLower_eq_of_not_isUpper hupper]

/-! ## Words whose letters only ASCII lowers to -/

/-- A character of ASCII with which no lower-case form of a character outside ASCII begins. -/
def Plain (c : Char) : Prop :=
  c.toNat < 128 ∧ c.toNat ≠ 0 ∧ c ≠ 'i' ∧ c ≠ 'k'

/-- A character outside ASCII is not plain. -/
theorem not_plain_of_le {c : Char} (h : 128 ≤ c.toNat) : ¬ Plain c := by
  intro hplain
  have hlt := hplain.1
  omega

/-- The lower-case form of a character outside ASCII does not begin with a plain one. -/
theorem exists_lowerChar_of_not_ascii {c : Char} (h : 128 ≤ c.toNat) :
    ∃ d rest, lowerChar c = d :: rest ∧ ¬ Plain d := by
  unfold lowerChar
  split
  · exact ⟨'i', _, rfl, by simp [Plain]⟩
  · split
    · rename_i r hfind
      have hmem := List.mem_of_find?_eq_some hfind
      have hmaps := List.find?_some hfind
      simp only [CaseRun.maps, decide_eq_true_eq] at hmaps
      refine ⟨_, [], rfl, ?_⟩
      rcases lowerRun_cases r hmem with hlast | houtside | ⟨hfirst, hlast, hdown⟩
      · omega
      · rintro ⟨hlt, hzero, -, -⟩
        rw [Char.toNat_ofNat] at hlt hzero
        split at hlt
        · omega
        · simp_all
      · have hk : c.toNat + r.up - r.down = 'k'.toNat := by
          have hk' : 'k'.toNat = 107 := rfl
          omega
        rw [hk, Char.ofNat_toNat]
        simp [Plain]
    · exact ⟨c, [], rfl, not_plain_of_le h⟩

/-- The form that a sigma takes in its word is no plain character. -/
theorem not_plain_lowerSigma (before after : List Char) : ¬ Plain (lowerSigma before after) := by
  unfold lowerSigma
  apply not_plain_of_le
  split <;> decide

/-- What a character adds to a lower-case form: its own lower-case form in ASCII, and outside something that is in no
plain word. -/
theorem lowerAfter_cons_cases (before : List Char) (c : Char) (s : List Char) :
    (c.toNat < 128 ∧ lowerAfter before (c :: s) = c.toLower :: lowerAfter (c :: before) s) ∨
      128 ≤ c.toNat ∧ ∃ d rest, lowerAfter before (c :: s) = d :: rest ∧ ¬ Plain d := by
  rw [lowerAfter]
  by_cases hascii : c.toNat < 128
  · have hsigma : c ≠ 'Σ' := by
      rintro rfl
      exact absurd hascii (by decide)
    rw [if_neg hsigma, lowerChar_of_ascii hascii]
    exact .inl ⟨hascii, rfl⟩
  · have hle : 128 ≤ c.toNat := by omega
    refine .inr ⟨hle, ?_⟩
    split
    · exact ⟨_, _, rfl, not_plain_lowerSigma before s⟩
    · obtain ⟨d, rest, hd, hplain⟩ := exists_lowerChar_of_not_ascii hle
      rw [hd]
      exact ⟨d, _, rfl, hplain⟩

/-- The ASCII rule leaves characters outside ASCII alone. -/
theorem toLower_eq_self_of_le {c : Char} (h : 128 ≤ c.toNat) : c.toLower = c := by
  apply Char.toLower_eq_of_not_isUpper
  rw [isUpper_iff]
  omega

/-- A text has a plain word for its lower-case form exactly when it is the word up to the case of ASCII letters. -/
theorem lowerAfter_eq_iff {word : List Char} (hword : ∀ c ∈ word, Plain c) (before s : List Char) :
    lowerAfter before s = word ↔ s.map Char.toLower = word := by
  induction s generalizing before word with
  | nil => simp [lowerAfter]
  | cons c s ih =>
    rw [List.map_cons]
    -- Outside ASCII neither side can hold, since both would put a character into the word that is not plain.
    rcases lowerAfter_cons_cases before c s with ⟨-, hc⟩ | ⟨hle, d, rest, hd, hplain⟩
    · rw [hc]
      cases word with
      | nil => simp
      | cons e word =>
        have hrest := ih (fun x hx => hword x (List.mem_cons_of_mem e hx)) (c :: before)
        rw [List.cons.injEq, List.cons.injEq, hrest]
    · rw [hd, toLower_eq_self_of_le hle]
      constructor
      · rintro rfl
        exact absurd (hword d List.mem_cons_self) hplain
      · rintro rfl
        exact absurd (hword c List.mem_cons_self) (not_plain_of_le hle)

end Text

/-! ## The names of the formats -/

namespace OutputFormat

/-- The names of the formats are of plain characters. -/
theorem plain_of_mem_name (f : OutputFormat) : ∀ c ∈ f.name.toList, Text.Plain c := by
  cases f <;> simp [name, Text.Plain]

/-- The names of the formats are in lower case. -/
theorem map_toLower_name (f : OutputFormat) : f.name.toList.map Char.toLower = f.name.toList := by
  cases f <;> rfl

/-- A word is the name of one format at most. -/
theorem ofName?_eq_some_iff {word : String} {f : OutputFormat} :
    Vocabulary.ofName? word = some f ↔ word = f.name := by
  constructor
  · intro h
    exact (Vocabulary.name_of_ofName? h).symm
  · rintro rfl
    cases f <;> rfl

/-- A text names a format when it has its name between white space, up to the case of ASCII letters. -/
theorem ofText?_eq_some_iff {text : String} {f : OutputFormat} :
    ofText? text = some f ↔ (Text.trim text.toList).map Char.toLower = f.name.toList := by
  rw [ofText?, ofName?_eq_some_iff, plainName, ← Text.lowerAfter_eq_iff f.plain_of_mem_name [], ← String.toList_inj,
    String.toList_ofList, Text.lower]

/-- A text names a format exactly when without the white space around it, it is the name of the format up to the case
of ASCII letters. So with a character outside ASCII that is not white space it names none. -/
theorem ofText?_names_format :
    (∀ (text : String) (f : OutputFormat), ofText? text = some f ↔
      ∃ core, Text.Trims text.toList core ∧
        core.map Char.caseFoldAsciiOnly = f.name.toList.map Char.caseFoldAsciiOnly) ∧
    ∀ text : String, (∃ c ∈ text.toList, 128 ≤ c.toNat ∧ Text.isBlank c = false) → ofText? text = none := by
  refine ⟨?_, ?_⟩
  · intro text f
    rw [ofText?_eq_some_iff, map_toLower_name]
    constructor
    · intro h
      exact ⟨Text.trim text.toList, Text.trims_trim _, h⟩
    · rintro ⟨core, htrims, hcore⟩
      rw [htrims.trim_eq]
      exact hcore
  · rintro text ⟨c, hc, hle, hblank⟩
    cases hread : ofText? text with
    | none => rfl
    | some f =>
      have hname := ofText?_eq_some_iff.mp hread
      have hcore : c ∈ Text.trim text.toList := (Text.trims_trim _).mem_core hc hblank
      have hmem : c ∈ f.name.toList := by
        rw [← hname, ← Text.toLower_eq_self_of_le hle]
        exact List.mem_map_of_mem hcore
      exact absurd (f.plain_of_mem_name c hmem) (Text.not_plain_of_le hle)

/-- White space of two kinds and capitals around and in a name, and the sign for kelvin, whose lower-case form is an
ASCII letter. -/
theorem ofText?_names_format_padded :
    ofText? "\u00a0 JsOn\n" = some .json ∧
    (∃ c ∈ "json\u212a".toList, 128 ≤ c.toNat ∧ Text.isBlank c = false) ∧ ofText? "json\u212a" = none := by
  obtain ⟨hnamed, houtside⟩ := ofText?_names_format
  have hkelvin : ∃ c ∈ "json\u212a".toList, 128 ≤ c.toNat ∧ Text.isBlank c = false :=
    ⟨'\u212a', by simp, by simp, by rfl⟩
  refine ⟨?_, hkelvin, houtside _ hkelvin⟩
  rw [hnamed]
  refine ⟨"JsOn".toList, ⟨⟨['\u00a0', ' '], ['\n'], by rfl, ?_, ?_⟩, ?_, ?_⟩, by rfl⟩
  · simp [Text.isBlank, Text.blanks, CharSet.contains]
  · simp [Text.isBlank, Text.blanks, CharSet.contains]
  · simp [Text.isBlank, Text.blanks, CharSet.contains]
  · simp [Text.isBlank, Text.blanks, CharSet.contains]

end OutputFormat

end MetricQuery
