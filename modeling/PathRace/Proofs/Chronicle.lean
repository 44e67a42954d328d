import Mathlib.Tactic

/-! Histories in which each entry is determined by the entries before it (`Chronicle`). -/

namespace PathRace

variable {α : Type} {follows : List α → α → Prop} {notes more : List α} {note : α}

/-- Every entry of a history is related to the entries before it. -/
def Chronicle (follows : List α → α → Prop) (notes : List α) : Prop :=
  ∀ i note, notes[i]? = some note → follows (notes.take i) note

namespace Chronicle

theorem nil : Chronicle follows [] := by simp [Chronicle]

theorem concat (h : Chronicle follows notes) (next : follows notes note) :
    Chronicle follows (notes ++ [note]) := by
  intro i other at_i
  rcases Nat.lt_trichotomy i notes.length with earlier | rfl | later
  · rw [List.getElem?_append_left earlier] at at_i
    rw [List.take_append_of_le_length earlier.le]
    exact h i other at_i
  · obtain rfl : note = other := by simpa using at_i
    rw [List.take_left]
    exact next
  · have beyond : (notes ++ [note]).length ≤ i := by simpa using later
    rw [List.getElem?_eq_none beyond] at at_i
    cases at_i

end Chronicle

end PathRace
