import MetricQuery.Proofs.JsonText
import MetricQuery.Proofs.Nodes
import MetricQuery.Proofs.ScaledDecimals

/-!
# What the reader takes

The reader takes a value from the head of a text and leaves the rest as it is: what it leaves is an end of the text,
and the value nests no deeper than it may and holds numbers of a finite size, `takes_readValue`. Each part of the reader
has a lemma of its own about what it leaves, in the form `Takes`, which also says what kind of result it gives, and a
composition leaves what its last part leaves.

The inversion lemmas `readValueWith_cases`, `readItems_cases` and `readMembers_cases` say how a result comes about.
With them the number of steps of the loop over the items of an array is seen not to matter, `readItems_of_length_lt`.
-/

set_option autoImplicit false

namespace MetricQuery.Json

/-- The step, when it succeeds, gives a result of this kind and leaves an end of the text. -/
def Takes {α : Type} (P : α → Prop) (text : List Char) (step : Except Fault (α × List Char)) : Prop :=
  ∀ a rest, step = .ok (a, rest) → P a ∧ rest <:+ text

section Takes

variable {α β : Type} {P : α → Prop} {Q : β → Prop} {text rest : List Char}

/-- A step that fails promises nothing. -/
theorem Takes.error (f : Fault) : Takes P text (.error f) :=
  nofun

/-- A result of the kind with an end of the text is as promised. -/
theorem Takes.ok {a : α} (ha : P a) (hrest : rest <:+ text) : Takes P text (.ok (a, rest)) := by
  rintro b rest' h
  cases h
  exact ⟨ha, hrest⟩

/-- Steps that keep their promises do so one behind the other. -/
theorem Takes.bind {step : Except Fault (α × List Char)} {next : α × List Char → Except Fault (β × List Char)}
    (h : Takes P text step) (hnext : ∀ a rest, P a → rest <:+ text → Takes Q rest (next (a, rest))) :
    Takes Q text (step >>= next) := by
  intro b rest hb
  obtain ⟨⟨a, middle⟩, ha, hlater⟩ := bind_eq_ok_iff.mp hb
  obtain ⟨hP, hmiddle⟩ := h a middle ha
  obtain ⟨hQ, hrest⟩ := hnext a middle hP hmiddle b rest hlater
  exact ⟨hQ, hrest.trans hmiddle⟩

/-- A text with more before it. -/
theorem Takes.of_suffix {inner : List Char} {step : Except Fault (α × List Char)} (h : Takes P inner step)
    (hinner : inner <:+ text) : Takes P text step := by
  intro a rest ha
  obtain ⟨hP, hrest⟩ := h a rest ha
  exact ⟨hP, hrest.trans hinner⟩

end Takes

/-! ## Numbers -/

/-- A number, if it is one, is of a size that the reader can give it. -/
def InRange : Json → Prop
  | integer n => n.natAbs ≤ maxSignificand
  | float x => x.isFinite = true
  | _ => True

/-- A number in range. -/
def IsRangedNumber (j : Json) : Prop :=
  j.isNumber = true ∧ j.InRange

section Numbers

variable {negative : Bool} {significand : Nat} {e : Int} {text : List Char}

/-- A finite double is a number in range, with either sign. -/
theorem isRangedNumber_signed {x : Double} (h : x.isFinite = true) : (signed negative x).IsRangedNumber := by
  refine ⟨rfl, ?_⟩
  cases negative with
  | false => exact h
  | true => exact (congrArg (fun m => decide (m < Double.infiniteMagnitude))
      (Double.magnitude_ofMagnitude _ _ x.magnitude_lt)).trans h

/-- So is a whole number that fits. -/
theorem isRangedNumber_whole (hs : significand ≤ maxSignificand) : (whole negative significand).IsRangedNumber := by
  unfold whole
  split
  · exact ⟨rfl, by simpa [InRange] using hs⟩
  · split
    · have hfinite : (Double.ofNat significand).isFinite = true :=
        decide_eq_true ((Double.magnitude_ofRatio_one_le false hs).trans_lt (by decide))
      show (signed true (Double.ofNat significand)).IsRangedNumber
      exact isRangedNumber_signed hfinite
    · exact ⟨rfl, by simpa [InRange] using hs⟩

/-- The digits that are collected always fit. -/
theorem collect_le (hs : significand ≤ maxSignificand) (ds : List Char) :
    (collect significand ds).1 ≤ maxSignificand := by
  induction ds generalizing significand with
  | nil => exact hs
  | cons c ds ih =>
    simp only [collect]
    split
    · exact ih ‹_›
    · exact hs

variable (hs : significand ≤ maxSignificand)
include hs

/-- Scaling gives a number in range and takes nothing. -/
theorem takes_scale (rest : List Char) :
    Takes IsRangedNumber rest (do return (signed negative (← scale significand e), rest)) := by
  intro j rest' h
  obtain ⟨x, hscale, hret⟩ := bind_eq_ok_iff.mp h
  cases hret
  exact ⟨isRangedNumber_signed (isFinite_of_scale hs hscale), List.suffix_refl _⟩

/-- The digits of an exponent give a number in range. -/
theorem takes_exponentDigits {down : Bool} :
    Takes IsRangedNumber text (exponentDigits negative significand e down text) := by
  cases text with
  | nil => exact .error _
  | cons c text =>
    have hsuffix : (Decimal.spanDigits (c :: text)).2 <:+ c :: text := List.dropWhile_suffix _
    simp only [exponentDigits]
    split
    · split
      · exact (takes_scale hs _).of_suffix hsuffix
      · split
        · exact .error _
        · exact .ok (isRangedNumber_signed rfl) hsuffix
    · exact .error _

/-- So does an exponent. -/
theorem takes_readExponent : Takes IsRangedNumber text (readExponent negative significand e text) := by
  rw [readExponent_eq]
  refine (takes_exponentDigits hs).of_suffix ?_
  unfold exponentSign
  split
  · exact List.suffix_cons _ _
  · exact List.suffix_cons _ _
  · exact List.suffix_refl _

/-- So does what stands behind a fraction. -/
theorem takes_readTail : Takes IsRangedNumber text (readTail negative significand e text) := by
  unfold readTail
  split
  · split
    · exact (takes_readExponent hs).of_suffix (List.suffix_cons _ _)
    · exact takes_scale hs _
  · exact takes_scale hs _

/-- So does a fraction. -/
theorem takes_readFraction : Takes IsRangedNumber text (readFraction negative significand e text) := by
  have hsuffix : (Decimal.spanDigits text).2 <:+ text := List.dropWhile_suffix _
  unfold readFraction
  split
  · exact .error _
  · exact .error _
  · rename_i ds rest _ _ heq
    rw [heq] at hsuffix
    exact (takes_readTail (collect_le hs ds)).of_suffix hsuffix

/-- So does what stands behind a whole part. -/
theorem takes_readPoint {skipped : Nat} :
    Takes IsRangedNumber text (readPoint negative significand skipped text) := by
  unfold readPoint
  split
  · exact (takes_readFraction hs).of_suffix (List.suffix_cons _ _)
  · exact (takes_readExponent hs).of_suffix (List.suffix_cons _ _)
  · exact (takes_readExponent hs).of_suffix (List.suffix_cons _ _)
  · split
    · exact .ok (isRangedNumber_whole hs) (List.suffix_refl _)
    · exact takes_scale hs _

omit hs in
/-- So does a number. -/
theorem takes_readNumber : Takes IsRangedNumber text (readNumber negative text) := by
  unfold readNumber
  split
  · exact .error _
  · split
    · split
      · exact .error _
      · exact (takes_readPoint (Nat.zero_le _)).of_suffix (List.suffix_cons _ _)
    · exact (takes_readPoint (Nat.zero_le _)).of_suffix (List.suffix_cons _ _)
  · split
    · exact (takes_readPoint (collect_le (Nat.zero_le _) _)).of_suffix (List.dropWhile_suffix _)
    · exact .error _

end Numbers

/-! ## Strings -/

section Strings

variable {text rest : List Char}

/-- The digits of a code leave an end of the text. -/
theorem takes_readHex : Takes (fun _ => True) text (readHex text) := by
  unfold readHex
  split
  · split
    · exact .ok trivial (List.suffix_append [_, _, _, _] _)
    · exact .error _
  · exact .error _

/-- So does the second half of a pair. -/
theorem takes_readLowSurrogate (high : Nat) : Takes (fun _ => True) text (readLowSurrogate high text) := by
  unfold readLowSurrogate
  split
  · refine (takes_readHex.bind fun low rest _ _ => ?_).of_suffix (List.suffix_append [_, _] _)
    simp only
    split
    · exact .ok trivial (List.suffix_refl _)
    · exact .error _
  all_goals exact .error _

/-- So does an escape. -/
theorem takes_readEscape : Takes (fun _ => True) text (readEscape text) := by
  unfold readEscape
  split
  case h_10 =>
    refine (takes_readHex.bind fun n rest _ _ => ?_).of_suffix (List.suffix_cons _ _)
    simp only
    split
    · exact .error _
    · split
      · exact takes_readLowSurrogate n
      · exact .ok trivial (List.suffix_refl _)
  all_goals first
    | exact .error _
    | exact .ok trivial (List.suffix_cons _ _)

/-- So do the characters of a string. -/
theorem takes_readChars (steps : Nat) : Takes (fun _ => True) text (readChars steps text) := by
  induction steps generalizing text with
  | zero => cases text <;> exact .error _
  | succ steps ih =>
    cases text with
    | nil => exact .error _
    | cons c text =>
      have hlater : ∀ (d : Char) (rest : List Char), Takes (fun _ => True) rest
          (readChars steps rest >>= fun p => .ok (d :: p.1, p.2)) :=
        fun _ _ => ih.bind fun _ _ _ _ => .ok trivial (List.suffix_refl _)
      rw [readChars]
      refine Takes.of_suffix ?_ (List.suffix_cons c text)
      split
      · exact .ok trivial (List.suffix_refl _)
      · split
        · exact takes_readEscape.bind fun d rest _ _ => hlater d rest
        · split
          · exact .error _
          · exact hlater c text

/-- So does a string. -/
theorem takes_readString : Takes (fun _ => True) text (readString text) :=
  (takes_readChars _).bind fun _ _ _ _ => .ok trivial (List.suffix_refl _)

/-- So does a word. -/
theorem expect_suffix {word : List Char} (h : expect word text = .ok rest) : rest <:+ text := by
  induction word generalizing text with
  | nil =>
    cases h
    exact List.suffix_refl _
  | cons w word ih =>
    cases text with
    | nil => cases h
    | cons c text =>
      rw [expect] at h
      split at h
      · exact (ih h).trans (List.suffix_cons _ _)
      · cases h

end Strings

/-! ## Brackets -/

/-- What is left at the end of a bracket or before its next part. -/
def Next.rest {α : Type} : Next α → List Char
  | close rest => rest
  | part _ rest => rest

section Brackets

variable {text rest : List Char} {first : Bool}

/-- So does white space. -/
theorem skipBlanks_suffix (text : List Char) : skipBlanks text <:+ text :=
  List.dropWhile_suffix _

/-- So does the first character behind white space. -/
theorem suffix_of_skipBlanks {c : Char} (h : skipBlanks text = c :: rest) : rest <:+ text := by
  have hall := skipBlanks_suffix text
  rw [h] at hall
  exact (List.suffix_cons c rest).trans hall

/-- The start of an item leaves an end of the text. -/
theorem nextItem_suffix {next : Next Unit} (h : nextItem first text = .ok next) : next.rest <:+ text := by
  have hall := skipBlanks_suffix text
  unfold nextItem at h
  split at h
  · cases h
  · rename_i t hskip
    cases h
    exact suffix_of_skipBlanks hskip
  · rename_i c t _ hskip
    split at h
    · cases h
      rwa [hskip] at hall
    · split at h
      · split at h
        · cases h
        · cases h
        · cases h
          exact (skipBlanks_suffix t).trans (suffix_of_skipBlanks hskip)
      · cases h

/-- Before an item that is not the first there is a comma. -/
theorem length_lt_of_nextItem {t : List Char} (h : nextItem false text = .ok (.part () t)) :
    t.length < text.length := by
  unfold nextItem at h
  split at h
  · cases h
  · cases h
  · rename_i c t' _ hskip
    have hall := (skipBlanks_suffix text).length_le
    have hinner := (skipBlanks_suffix t').length_le
    rw [hskip, List.length_cons] at hall
    simp only [Bool.false_eq_true, if_false] at h
    split at h
    · split at h
      · cases h
      · cases h
      · cases h
        omega
    · cases h

/-- So does the key of a member. -/
theorem nextMember_suffix {next : Next String} (h : nextMember first text = .ok next) : next.rest <:+ text := by
  have hkey : ∀ t, (readString t >>= fun p => .ok (.part p.1 p.2)) = .ok next → next.rest <:+ t := by
    intro t ht
    obtain ⟨⟨name, rest⟩, hname, hret⟩ := bind_eq_ok_iff.mp ht
    cases hret
    exact (takes_readString name rest hname).2
  unfold nextMember at h
  split at h
  · cases h
  · rename_i t hskip
    cases h
    exact suffix_of_skipBlanks hskip
  · rename_i c t _ hskip
    have ht := suffix_of_skipBlanks hskip
    split at h
    · split at h
      · exact (hkey t h).trans ht
      · cases h
    · split at h
      · split at h
        · cases h
        · rename_i t' hskip'
          exact ((hkey t' h).trans (suffix_of_skipBlanks hskip')).trans ht
        · cases h
      · cases h

/-- So does the colon behind a key. -/
theorem readColon_suffix (h : readColon text = .ok rest) : rest <:+ text := by
  unfold readColon at h
  split at h
  · cases h
  · rename_i t hskip
    cases h
    exact suffix_of_skipBlanks hskip
  · cases h

variable {value : List Char → Except Fault (Json × List Char)} {steps : Nat}

/-- Items that are read are at their end, or there is one and the rest of them. -/
theorem readItems_cases {js : List Json} (h : readItems value (steps + 1) first text = .ok (js, rest)) :
    nextItem first text = .ok (.close rest) ∧ js = [] ∨
      ∃ t j t' later, nextItem first text = .ok (.part () t) ∧ value t = .ok (j, t') ∧
        readItems value steps false t' = .ok (later, rest) ∧ js = j :: later := by
  obtain ⟨next, hnext, hlater⟩ := bind_eq_ok_iff.mp h
  cases next with
  | close rest' =>
    cases hlater
    exact .inl ⟨hnext, rfl⟩
  | part u t =>
    obtain ⟨⟨j, t'⟩, hj, hlater⟩ := bind_eq_ok_iff.mp hlater
    obtain ⟨⟨later, rest'⟩, hrest, hret⟩ := bind_eq_ok_iff.mp hlater
    cases hret
    exact .inr ⟨t, j, t', later, hnext, hj, hrest, rfl⟩

/-- Members that are read are at their end, or there is one and the rest of them. -/
theorem readMembers_cases {ms : List (String × Json)}
    (h : readMembers value (steps + 1) first text = .ok (ms, rest)) :
    nextMember first text = .ok (.close rest) ∧ ms = [] ∨
      ∃ key t t' j t'' later, nextMember first text = .ok (.part key t) ∧ readColon t = .ok t' ∧
        value t' = .ok (j, t'') ∧ readMembers value steps false t'' = .ok (later, rest) ∧ ms = (key, j) :: later := by
  obtain ⟨next, hnext, hlater⟩ := bind_eq_ok_iff.mp h
  cases next with
  | close rest' =>
    cases hlater
    exact .inl ⟨hnext, rfl⟩
  | part key t =>
    obtain ⟨t', hcolon, hlater⟩ := bind_eq_ok_iff.mp hlater
    obtain ⟨⟨j, t''⟩, hj, hlater⟩ := bind_eq_ok_iff.mp hlater
    obtain ⟨⟨later, rest'⟩, hrest, hret⟩ := bind_eq_ok_iff.mp hlater
    cases hret
    exact .inr ⟨key, t, t', j, t'', later, hnext, hcolon, hj, hrest, rfl⟩

section Parts

variable {P : Json → Prop}

/-- Items are all of the kind that single values are. -/
theorem takes_readItems (hvalue : ∀ t, Takes P t (value t)) :
    Takes (fun js => ∀ j ∈ js, P j) text (readItems value steps first text) := by
  induction steps generalizing first text with
  | zero => exact .error _
  | succ steps ih =>
    intro js rest h
    rcases readItems_cases h with ⟨hnext, rfl⟩ | ⟨t, j, t', later, hnext, hj, hlater, rfl⟩
    · exact ⟨nofun, nextItem_suffix hnext⟩
    · obtain ⟨hP, ht'⟩ := hvalue t j t' hj
      obtain ⟨hPs, hrest⟩ := ih later rest hlater
      exact ⟨List.forall_mem_cons.mpr ⟨hP, hPs⟩, (hrest.trans ht').trans (nextItem_suffix hnext)⟩

/-- So are the values of members. -/
theorem takes_readMembers (hvalue : ∀ t, Takes P t (value t)) :
    Takes (fun ms => ∀ m ∈ ms, P m.2) text (readMembers value steps first text) := by
  induction steps generalizing first text with
  | zero => exact .error _
  | succ steps ih =>
    intro ms rest h
    rcases readMembers_cases h with ⟨hnext, rfl⟩ | ⟨key, t, t', j, t'', later, hnext, hcolon, hj, hlater, rfl⟩
    · exact ⟨nofun, nextMember_suffix hnext⟩
    · obtain ⟨hP, ht''⟩ := hvalue t' j t'' hj
      obtain ⟨hPs, hrest⟩ := ih later rest hlater
      have hmember := (hrest.trans ht'').trans (readColon_suffix hcolon)
      exact ⟨List.forall_mem_cons.mpr ⟨hP, hPs⟩, hmember.trans (nextMember_suffix hnext)⟩

end Parts

/-- With enough steps for the items their number does not matter. -/
theorem readItems_of_length_lt {js : List Json} {n : Nat} (h : readItems value steps first text = .ok (js, rest))
    (hn : js.length < n) : readItems value n first text = .ok (js, rest) := by
  induction steps generalizing first text js n with
  | zero => cases h
  | succ steps ih =>
    obtain ⟨n, rfl⟩ : ∃ m, n = m + 1 := ⟨n - 1, by omega⟩
    rcases readItems_cases h with ⟨hnext, rfl⟩ | ⟨t, j, t', later, hnext, hj, hlater, rfl⟩
    · rw [readItems, hnext]
      rfl
    · have hrest := ih hlater (Nat.lt_of_succ_lt_succ hn)
      rw [readItems_step hnext, hj]
      show (readItems value n false t').map _ = _
      rw [hrest]
      rfl

/-- Every item after the first takes a character, its comma. -/
theorem length_le_of_readItems {js : List Json} {P : Json → Prop} (hvalue : ∀ t, Takes P t (value t))
    (h : readItems value steps false text = .ok (js, rest)) : js.length ≤ text.length := by
  induction steps generalizing text js with
  | zero => cases h
  | succ steps ih =>
    rcases readItems_cases h with ⟨-, rfl⟩ | ⟨t, j, t', later, hnext, hj, hlater, rfl⟩
    · exact Nat.zero_le _
    · have hcomma := length_lt_of_nextItem hnext
      have hitem := (hvalue t j t' hj).2.length_le
      have hrest := ih hlater
      rw [List.length_cons]
      omega

end Brackets

/-! ## Values -/

/-- A value that is neither a string nor a bracket. -/
def isBare : Json → Bool
  | null | bool _ | integer _ | float _ => true
  | _ => false

section Values

variable {text rest : List Char} {array object : List Char → Except Fault (Json × List Char)} {j : Json}

/-- A number has no parts. -/
theorem isBare_of_isNumber (h : j.isNumber = true) : j.isBare = true := by
  cases j <;> first | rfl | cases h

/-- A word that is read is a bare value. -/
theorem takes_word {word : List Char} (hj : j.isBare = true ∧ j.InRange) :
    Takes (fun j => j.isBare = true ∧ j.InRange) text (do return (j, ← expect word text)) := by
  intro k rest h
  obtain ⟨rest', hexpect, hret⟩ := bind_eq_ok_iff.mp h
  cases hret
  exact ⟨hj, expect_suffix hexpect⟩

/-- A value begins with a quote or a bracket, or is neither. -/
theorem readValueWith_cases (h : readValueWith array object text = .ok (j, rest)) :
    (∃ t s, skipBlanks text = '"' :: t ∧ readString t = .ok (s, rest) ∧ j = .string s) ∨
      (∃ t, skipBlanks text = '[' :: t ∧ array t = .ok (j, rest)) ∨
      (∃ t, skipBlanks text = '{' :: t ∧ object t = .ok (j, rest)) ∨
      (j.isBare = true ∧ j.InRange) ∧ rest <:+ text := by
  have hbare : ∀ {c : Char} {t : List Char} {step : Except Fault (Json × List Char)}, skipBlanks text = c :: t →
      Takes (fun j => j.isBare = true ∧ j.InRange) (c :: t) step → step = .ok (j, rest) →
        (j.isBare = true ∧ j.InRange) ∧ rest <:+ text := by
    intro c t step hskip htakes hstep
    have hall := skipBlanks_suffix text
    rw [hskip] at hall
    exact htakes.of_suffix hall j rest hstep
  have hnumber : ∀ {negative : Bool} {t : List Char},
      Takes (fun j => j.isBare = true ∧ j.InRange) t (readNumber negative t) := by
    intro negative t k rest' hk
    obtain ⟨⟨hnumber, hrange⟩, hrest⟩ := takes_readNumber k rest' hk
    exact ⟨⟨isBare_of_isNumber hnumber, hrange⟩, hrest⟩
  unfold readValueWith at h
  split at h
  · cases h
  · rename_i t hskip
    refine .inr (.inr (.inr (hbare hskip (.of_suffix ?_ (List.suffix_cons _ _)) h)))
    exact takes_word ⟨rfl, trivial⟩
  · rename_i t hskip
    refine .inr (.inr (.inr (hbare hskip (.of_suffix ?_ (List.suffix_cons _ _)) h)))
    exact takes_word ⟨rfl, trivial⟩
  · rename_i t hskip
    refine .inr (.inr (.inr (hbare hskip (.of_suffix ?_ (List.suffix_cons _ _)) h)))
    exact takes_word ⟨rfl, trivial⟩
  · rename_i t hskip
    obtain ⟨⟨s, rest'⟩, hs, hret⟩ := bind_eq_ok_iff.mp h
    cases hret
    exact .inl ⟨t, s, hskip, hs, rfl⟩
  · rename_i t hskip
    exact .inr (.inr (.inr (hbare hskip (hnumber.of_suffix (List.suffix_cons _ _)) h)))
  · rename_i t hskip
    exact .inr (.inl ⟨t, hskip, h⟩)
  · rename_i t hskip
    exact .inr (.inr (.inl ⟨t, hskip, h⟩))
  · rename_i c t _ _ _ _ _ _ _ hskip
    split at h
    · exact .inr (.inr (.inr (hbare hskip hnumber h)))
    · cases h

/-- Values are of a kind if texts, bare values, arrays and objects are. -/
theorem takes_readValueWith {P : Json → Prop} (hstring : ∀ s, P (.string s))
    (hbare : ∀ j, j.isBare = true → j.InRange → P j) (harray : ∀ t, Takes P t (array t))
    (hobject : ∀ t, Takes P t (object t)) : Takes P text (readValueWith array object text) := by
  intro j rest h
  rcases readValueWith_cases h with ⟨t, s, hskip, hs, rfl⟩ | ⟨t, hskip, ht⟩ | ⟨t, hskip, ht⟩ | ⟨⟨hj, hrange⟩, hrest⟩
  · exact ⟨hstring s, (takes_readString s rest hs).2.trans (suffix_of_skipBlanks hskip)⟩
  · exact (harray t).of_suffix (suffix_of_skipBlanks hskip) j rest ht
  · exact (hobject t).of_suffix (suffix_of_skipBlanks hskip) j rest ht
  · exact ⟨hbare j hj hrange, hrest⟩

/-- A value that nests at most `d` deep, with numbers that are in range. -/
def Bounded (d : Nat) (j : Json) : Prop :=
  j.nesting ≤ d ∧ j.All InRange

/-- A bare value in range is within any depth. -/
theorem bounded_of_isBare (d : Nat) (hbare : j.isBare = true) (hrange : j.InRange) : Bounded d j := by
  have hnesting : j.nesting = 0 := by cases j <;> first | rfl | cases hbare
  have hparts : j.parts = [] := by cases j <;> first | rfl | cases hbare
  exact ⟨hnesting ▸ Nat.zero_le d, .value hrange (hparts ▸ nofun)⟩

/-- An array is one deeper than its items. -/
theorem bounded_array {d : Nat} {js : List Json} (h : ∀ j ∈ js, Bounded d j) : Bounded (d + 1) (.array js) := by
  refine ⟨?_, .value trivial fun j hj => (h j hj).2⟩
  exact Nat.succ_le_succ (nestingItems_le_iff.mpr fun j hj => (h j hj).1)

/-- An object is one deeper than its members. -/
theorem bounded_object {d : Nat} {ms : List (String × Json)} (h : ∀ m ∈ ms, Bounded d m.2) :
    Bounded (d + 1) (.object ms) := by
  refine ⟨?_, .value trivial fun j hj => ?_⟩
  · exact Nat.succ_le_succ (nestingMembers_le_iff.mpr fun m hm => (h m hm).1)
  · obtain ⟨m, hm, rfl⟩ := List.mem_map.mp hj
    exact (h m hm).2

/-- Inside a bracket there is room for one bracket less. -/
theorem Bounded.parts {n : Nat} (h : Bounded n j) (hpos : 0 < j.nesting) :
    ∃ d, n = d + 1 ∧ ∀ i ∈ j.parts, Bounded d i := by
  obtain ⟨hnesting, hall⟩ := h
  refine ⟨n - 1, by omega, fun i hi => ⟨?_, hall.part i hi⟩⟩
  have hlt := nesting_lt_of_mem_parts hi
  omega

/-- A value is no deeper than the reader goes, with numbers that are in range. -/
theorem takes_readValue (d : Nat) (text : List Char) : Takes (Bounded d) text (readValue d text) := by
  have hstring : ∀ d s, Bounded d (.string s) := fun d s => ⟨Nat.zero_le d, .value trivial nofun⟩
  induction d generalizing text with
  | zero => exact takes_readValueWith (hstring 0) (fun _ => bounded_of_isBare 0) (fun _ => .error _) fun _ => .error _
  | succ d ih =>
    refine takes_readValueWith (hstring _) (fun _ => bounded_of_isBare _) (fun t => ?_) fun t => ?_
    · exact (takes_readItems ih).bind fun _ _ hjs _ => .ok (bounded_array hjs) (List.suffix_refl _)
    · exact (takes_readMembers ih).bind fun _ _ hms _ => .ok (bounded_object hms) (List.suffix_refl _)

/-- A string begins with a quote. -/
theorem readValue_string_cases {d : Nat} {s : String} (h : readValue d text = .ok (.string s, rest)) :
    ∃ t, skipBlanks text = '"' :: t ∧ readString t = .ok (s, rest) := by
  obtain ⟨array, object, hvalue, harray, hobject⟩ : ∃ array object, readValue d = readValueWith array object ∧
      (∀ t, array t ≠ .ok (.string s, rest)) ∧ ∀ t, object t ≠ .ok (.string s, rest) := by
    cases d with
    | zero => exact ⟨_, _, rfl, fun _ => nofun, fun _ => nofun⟩
    | succ d =>
      refine ⟨_, _, rfl, fun t ht => ?_, fun t ht => ?_⟩
      all_goals
        obtain ⟨_, -, hret⟩ := bind_eq_ok_iff.mp ht
        cases hret
  rw [hvalue] at h
  rcases readValueWith_cases h with ⟨t, s', hskip, hs, heq⟩ | ⟨t, -, ht⟩ | ⟨t, -, ht⟩ | ⟨⟨hbare, -⟩, -⟩
  · cases heq
    exact ⟨t, hskip, hs⟩
  · exact absurd ht (harray t)
  · exact absurd ht (hobject t)
  · cases hbare

/-- Behind a quote stands a string. -/
theorem readValue_quote {d : Nat} {t : List Char} (hskip : skipBlanks text = '"' :: t) :
    readValue d text = (readString t).bind fun p => .ok (.string p.1, p.2) := by
  obtain ⟨array, object, hvalue⟩ := exists_readValue_eq d
  rw [hvalue, readValueWith, hskip]
  rfl

end Values

end MetricQuery.Json
