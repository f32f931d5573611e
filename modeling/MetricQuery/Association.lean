/-!
# Associations

A list of pairs as a finite map. `put` leaves one pair for its key, and `lookup_put` says all that is
to know about it.
-/

set_option autoImplicit false

namespace MetricQuery

/-- Values by their keys. Of two with one key the first counts. -/
abbrev Association (α β : Type) := List (α × β)

namespace Association

variable {α β : Type}

/-- Gives a key a value, in place of the one it had. -/
def put [DecidableEq α] (map : Association α β) (key : α) (value : β) : Association α β :=
  (key, value) :: map.filter fun entry => decide (entry.1 ≠ key)

section Lookup

variable [DecidableEq α] [BEq α] [LawfulBEq α]

/-- Dropping the pairs of one key does not show at another. -/
theorem lookup_filter_ne (map : Association α β) {key other : α} (h : other ≠ key) :
    (map.filter fun entry => decide (entry.1 ≠ key)).lookup other = map.lookup other := by
  induction map with
  | nil => rfl
  | cons entry rest ih =>
    obtain ⟨k, v⟩ := entry
    simp only [ne_eq, decide_not] at ih
    by_cases hk : k = key
    · subst hk
      have hother : (other == k) = false := by simp [h]
      simp [List.lookup_cons, hother, ih]
    · simp [List.lookup_cons, hk, ih]

/-- A key has the value that was put last. -/
@[simp]
theorem lookup_put (map : Association α β) (key other : α) (value : β) :
    List.lookup other (map.put key value) = if other = key then some value else map.lookup other := by
  by_cases h : other = key
  · simp [put, h]
  · have hother : (other == key) = false := by simp [h]
    rw [put, List.lookup_cons, hother, if_neg h]
    exact lookup_filter_ne map h

end Lookup

end Association

end MetricQuery
