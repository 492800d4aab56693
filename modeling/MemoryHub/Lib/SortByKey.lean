import Mathlib.Data.List.Perm.Subperm
import MemoryHub.Lib.TopK

/-!
# Sorting by a number

A stable sort by a number that each element carries.

Main results:

- Theorem `filter_key_of_sortByKey`: if the numbers are those of the places, each element gets
  to its own place.
- Theorem `sortByKey_of_const`: elements that all carry one number keep their order.
-/

namespace SortByKey

variable {α : Type*}

/-- `slice::sort_by_key`. -/
def sortByKey (key : α → Nat) (xs : List α) : List α :=
  xs.mergeSort fun a b => key a ≤ key b

variable {key : α → Nat} {xs : List α}

theorem sortByKey_perm (key : α → Nat) (xs : List α) : (sortByKey key xs).Perm xs :=
  List.mergeSort_perm _ _

theorem key_preorder (key : α → Nat) :
    TopK.TotalPreorder fun a b => decide (key a ≤ key b) := by
  constructor
  · intro a b c hab hbc
    rw [decide_eq_true_eq] at hab hbc ⊢
    exact hab.trans hbc
  · intro a b
    rw [Bool.or_eq_true, decide_eq_true_eq, decide_eq_true_eq]
    exact le_total _ _

theorem sortByKey_eq_insertionSort (key : α → Nat) (xs : List α) :
    sortByKey key xs = xs.insertionSort fun a b => decide (key a ≤ key b) = true :=
  TopK.mergeSort_eq_insertionSort (key_preorder key) xs

theorem sorted_map_sortByKey (key : α → Nat) (xs : List α) :
    ((sortByKey key xs).map key).SortedLE := by
  have hsorted := List.pairwise_mergeSort (key_preorder key).trans (key_preorder key).total xs
  rw [List.sortedLE_iff_pairwise, List.pairwise_map]
  exact hsorted.imp fun hab => of_decide_eq_true hab

/-- Elements that all carry one number keep their order. -/
theorem sortByKey_of_const {k : Nat} (h : ∀ a ∈ xs, key a = k) : sortByKey key xs = xs := by
  apply List.mergeSort_of_pairwise
  rw [List.pairwise_iff_forall_sublist]
  intro a b hab
  have ha := h a (hab.subset List.mem_cons_self)
  have hb := h b (hab.subset (List.mem_cons_of_mem _ List.mem_cons_self))
  simp [ha, hb]

/-- Numbers that are those of the places are sorted to them. -/
theorem map_sortByKey_of_perm {n : Nat} (h : (xs.map key).Perm (List.range n)) :
    (sortByKey key xs).map key = List.range n := by
  have hperm : ((sortByKey key xs).map key).Perm (List.range n) :=
    ((sortByKey_perm key xs).map key).trans h
  exact hperm.eq_of_sortedLE (sorted_map_sortByKey key xs)
    (List.sortedLE_iff_pairwise.mpr List.pairwise_le_range)

/-- Among elements numbered from `start` on, each number is carried by the one in its place. -/
theorem filter_key_of_map_eq {start n i : Nat} {x : α} (h : xs.map key = List.range' start n)
    (hx : xs[i]? = some x) : (xs.filter fun a => key a = start + i) = [x] := by
  induction xs generalizing start n i with
  | nil => simp at hx
  | cons a xs ih =>
      cases n with
      | zero => simp at h
      | succ n =>
          rw [List.map_cons, List.range'_succ] at h
          rcases List.cons.inj h with ⟨ha, hrest⟩
          cases i with
          | zero =>
              have hlater : (xs.filter fun b => key b = start) = [] := by
                rw [List.filter_eq_nil_iff]
                intro b hb
                have hkey : key b ∈ List.range' (start + 1) n := hrest ▸ List.mem_map_of_mem hb
                have hmore := (List.mem_range'_1.mp hkey).1
                simp only [decide_eq_true_eq]
                omega
              rw [List.getElem?_cons_zero] at hx
              rw [Nat.add_zero, List.filter_cons_of_pos (by simpa using ha), hlater,
                Option.some.inj hx]
          | succ i =>
              rw [List.getElem?_cons_succ] at hx
              have hne : ¬ key a = start + (i + 1) := by omega
              have hlater := ih hrest hx
              rw [Nat.add_assoc, Nat.add_comm 1 i] at hlater
              rw [List.filter_cons_of_neg (by simpa using hne), hlater]

/-- If the numbers are those of the places, the element in each place is the only one with its
number. -/
theorem filter_key_of_sortByKey {n i : Nat} {x : α} (h : (xs.map key).Perm (List.range n))
    (hx : (sortByKey key xs)[i]? = some x) : (xs.filter fun a => key a = i) = [x] := by
  have hrange := (map_sortByKey_of_perm h).trans List.range_eq_range'
  have hplace := filter_key_of_map_eq hrange hx
  rw [Nat.zero_add] at hplace
  rw [← List.perm_singleton, ← hplace]
  exact ((sortByKey_perm key xs).filter _).symm

/-- Numbers among which are those of all places are those of the places. -/
theorem perm_range_of_forall_mem {ks : List Nat} (h : ∀ i < ks.length, i ∈ ks) :
    ks.Perm (List.range ks.length) := by
  have hsub : List.range ks.length ⊆ ks := fun i hi => h i (List.mem_range.mp hi)
  have hsubperm := List.nodup_range.subperm hsub
  exact (hsubperm.perm_of_length_le (by rw [List.length_range])).symm

end SortByKey
