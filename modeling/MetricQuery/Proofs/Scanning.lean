/-!
# Maximal runs

Readers take runs of characters of one class, as long as they go. A run that was written is read back
whole when what follows it does not go on with the same class, which is what `Stops` says.
-/

set_option autoImplicit false

namespace MetricQuery

/-- A character of a class is none outside it. -/
theorem ne_of_class {p : Char → Bool} {c d : Char} (hc : p c = true) (hd : p d = false) : c ≠ d := by
  rintro rfl
  rw [hc] at hd
  cases hd

/-- The text does not begin with a character of the class. -/
def Stops (p : Char → Bool) (rest : List Char) : Prop :=
  ∀ c ∈ rest.head?, p c = false

section Stops

variable {p q : Char → Bool} {c : Char} {word rest : List Char}

/-- Anything stops at the end of the text. -/
theorem stops_nil : Stops p [] :=
  nofun

/-- A character stops what it does not belong to. -/
theorem stops_cons : Stops p (c :: rest) ↔ p c = false := by
  simp [Stops]

/-- Where the larger class stops, so does the smaller. -/
theorem Stops.imp (hpq : ∀ c, p c = true → q c = true) (h : Stops q rest) : Stops p rest := by
  intro c hc
  have hq := h c hc
  cases hp : p c with
  | false => rfl
  | true =>
    rw [hpq c hp] at hq
    cases hq

/-- What stops at a word stops at it with more behind. -/
theorem Stops.append (hword : Stops p word) (hrest : Stops p rest) : Stops p (word ++ rest) := by
  cases word with
  | nil => exact hrest
  | cons c word => exact stops_cons.mpr (stops_cons.mp hword)

/-- Nothing is taken of a text that stops at once. -/
theorem takeWhile_of_stops (h : Stops p rest) : rest.takeWhile p = [] := by
  cases rest with
  | nil => rfl
  | cons c rest => rw [List.takeWhile_cons, stops_cons.mp h]; rfl

/-- Nothing is dropped of it. -/
theorem dropWhile_of_stops (h : Stops p rest) : rest.dropWhile p = rest := by
  cases rest with
  | nil => rfl
  | cons c rest => rw [List.dropWhile_cons, stops_cons.mp h]; rfl

/-- A run is taken whole and no further. -/
theorem takeWhile_append_of_stops (hw : ∀ c ∈ word, p c = true) (h : Stops p rest) :
    (word ++ rest).takeWhile p = word := by
  rw [List.takeWhile_append_of_pos hw, takeWhile_of_stops h, List.append_nil]

/-- What follows a run is left over. -/
theorem dropWhile_append_of_stops (hw : ∀ c ∈ word, p c = true) (h : Stops p rest) :
    (word ++ rest).dropWhile p = rest := by
  rw [List.dropWhile_append_of_pos hw, dropWhile_of_stops h]

end Stops

end MetricQuery
