import Mathlib.Data.List.DropRight
import Mathlib.Tactic.Common

/-!
# Trimming lists

Dropping the elements with a property at both ends of a list.

Main results:

- Theorem `trimWhile_trimWhile`: trimming twice is trimming once.
- Theorem `trimWhile_surrounded`: elements to drop make no difference around a list.
- Theorem `map_trimWhile`: a map that keeps the property keeps what is trimmed.
-/

namespace ListTrim

variable {α β : Type*} {p : α → Bool}

/-- The list without the elements at its ends that have the property. -/
def trimWhile (p : α → Bool) (xs : List α) : List α :=
  (xs.dropWhile p).rdropWhile p

/-- A list whose ends are to stay is not changed. -/
theorem trimWhile_eq_self {xs : List α} (hhead : ∀ x ∈ xs.head?, p x = false)
    (hlast : ∀ x ∈ xs.getLast?, p x = false) : trimWhile p xs = xs := by
  have hfront : xs.dropWhile p = xs := by
    cases xs with
    | nil => rfl
    | cons x xs => rw [List.dropWhile_cons_of_neg (by simp [hhead x rfl])]
  rw [trimWhile, hfront, List.rdropWhile_eq_self_iff]
  intro hne
  rw [hlast _ (List.getLast?_eq_getLast_of_ne_nil hne)]
  simp

/-- Nothing is left exactly of a list whose elements all have the property. -/
theorem trimWhile_eq_nil_iff {xs : List α} : trimWhile p xs = [] ↔ ∀ x ∈ xs, p x = true := by
  rw [trimWhile, List.rdropWhile_eq_nil_iff]
  constructor
  · intro h
    by_contra hne
    have hfront : xs.dropWhile p ≠ [] := fun hnil => hne (List.dropWhile_eq_nil_iff.mp hnil)
    have hhead := List.head_dropWhile_not p hfront
    rw [h _ (List.head_mem hfront)] at hhead
    contradiction
  · intro h x hx
    exact h x ((List.dropWhile_sublist p).subset hx)

/-- Trimming twice is trimming once. -/
theorem trimWhile_trimWhile (xs : List α) : trimWhile p (trimWhile p xs) = trimWhile p xs := by
  apply trimWhile_eq_self
  · intro x hx
    rcases List.rdropWhile_prefix p (xs.dropWhile p) with ⟨rest, hrest⟩
    have hhead : (xs.dropWhile p).head? = some x := by
      rw [← hrest, List.head?_append]
      rw [Option.mem_def, trimWhile] at hx
      rw [hx]
      rfl
    have hne : xs.dropWhile p ≠ [] := by
      intro hnil
      rw [hnil] at hhead
      contradiction
    have hnot := List.head_dropWhile_not p hne
    rw [List.head?_eq_some_head hne, Option.some_inj] at hhead
    rw [← hhead]
    exact hnot
  · intro x hx
    have hne : trimWhile p xs ≠ [] := by
      intro hnil
      rw [hnil] at hx
      contradiction
    have hnot := List.rdropWhile_last_not p (xs.dropWhile p) hne
    rw [List.getLast?_eq_getLast_of_ne_nil hne, Option.mem_def, Option.some_inj] at hx
    rw [← hx]
    exact eq_false_of_ne_true hnot

theorem rdropWhile_append_of_pos {xs back : List α} (h : ∀ x ∈ back, p x = true) :
    (xs ++ back).rdropWhile p = xs.rdropWhile p := by
  have hback : ∀ x ∈ back.reverse, p x = true := fun x hx => h x (List.mem_reverse.mp hx)
  rw [List.rdropWhile, List.reverse_append, List.dropWhile_append_of_pos hback, List.rdropWhile]

/-- Elements to drop make no difference around a list. -/
theorem trimWhile_surrounded {front xs back : List α} (hfront : ∀ x ∈ front, p x = true)
    (hback : ∀ x ∈ back, p x = true) : trimWhile p (front ++ xs ++ back) = trimWhile p xs := by
  rw [trimWhile, List.append_assoc, List.dropWhile_append_of_pos hfront, List.dropWhile_append,
    trimWhile]
  split <;> rename_i hempty
  · rw [List.isEmpty_iff.mp hempty, List.dropWhile_eq_nil_iff.mpr hback]
  · exact rdropWhile_append_of_pos hback

/-- A map that keeps the property keeps what is trimmed. -/
theorem map_trimWhile {f : α → β} {q : β → Bool} (h : ∀ x, q (f x) = p x) (xs : List α) :
    (trimWhile p xs).map f = trimWhile q (xs.map f) := by
  have hcomp : q ∘ f = p := funext h
  simp only [trimWhile, List.rdropWhile, List.dropWhile_map, hcomp, ← List.map_reverse]

end ListTrim
