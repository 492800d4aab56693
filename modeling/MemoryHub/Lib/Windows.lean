import Mathlib.Data.List.Chain
import Mathlib.Order.Lattice
import Mathlib.Tactic.Common

/-!
# Overlapping windows over a list

Windows of a fixed size, each starting a fixed step after the one before, until one
reaches the end.  A window is the pair of its first index and the index after its last.

Main results:

- Theorem `Covers.isChain`: neighbouring windows are `step` apart, and none ends before
  the one it follows.
- Theorem `Covers.rebuild`: the first window's items and then each later window's items
  past the overlap are the whole list, once and in order.
- Theorem `Covers.exists_window`: no index is left out.
-/

namespace Windows

variable {α : Type*}

/-- The items in a window. -/
def slice (xs : List α) (w : Nat × Nat) : List α :=
  (xs.drop w.1).take (w.2 - w.1)

theorem length_slice {xs : List α} {w : Nat × Nat} (h : w.2 ≤ xs.length) :
    (slice xs w).length = w.2 - w.1 := by
  rw [slice, List.length_take, List.length_drop]
  omega

/-- The windows that run from index `a` to the end of `n` items. -/
inductive Covers (n size step : Nat) : Nat → List (Nat × Nat) → Prop where
  | last {a : Nat} (hpos : a < n) (hfit : n ≤ a + size) : Covers n size step a [(a, n)]
  | cons {a : Nat} {ws : List (Nat × Nat)} (hmore : a + size < n)
      (rest : Covers n size step (a + step) ws) : Covers n size step a ((a, a + size) :: ws)

namespace Covers

variable {n size step a : Nat} {ws : List (Nat × Nat)}

/-- The first window starts where the windows start, and is cut at the end. -/
theorem exists_head (h : Covers n size step a ws) :
    ∃ rest, ws = (a, min (a + size) n) :: rest := by
  cases h with
  | last hpos hfit => exact ⟨[], by rw [Nat.min_eq_right hfit]⟩
  | cons hmore hrest => exact ⟨_, by rw [Nat.min_eq_left hmore.le]⟩

/-- Every window holds an item and stays within the list. -/
theorem bounds (h : Covers n size step a ws) (hsize : 0 < size) :
    ∀ w ∈ ws, a ≤ w.1 ∧ w.1 < w.2 ∧ w.2 ≤ n := by
  induction h with
  | last hpos hfit =>
      intro w hw
      rw [List.mem_singleton.mp hw]
      exact ⟨le_rfl, hpos, le_rfl⟩
  | cons hmore hrest ih =>
      intro w hw
      rcases List.mem_cons.mp hw with rfl | hw
      · exact ⟨le_rfl, by simpa using hsize, hmore.le⟩
      · have hlater := ih w hw
        exact ⟨by omega, hlater.2⟩

/-- Every window but the last is full. -/
theorem full (h : Covers n size step a ws) : ∀ w ∈ ws.dropLast, w.2 = w.1 + size := by
  induction h with
  | last hpos hfit => simp
  | cons hmore hrest ih =>
      rcases hrest.exists_head with ⟨rest, rfl⟩
      intro w hw
      rw [List.dropLast_cons_cons] at hw
      rcases List.mem_cons.mp hw with rfl | hw
      · rfl
      · exact ih w hw

/-- Neighbouring windows are a step apart, the earlier one is full, and the later one
ends no earlier. -/
theorem isChain (h : Covers n size step a ws) :
    ws.IsChain fun v w => w.1 = v.1 + step ∧ v.2 = v.1 + size ∧ v.2 ≤ w.2 := by
  induction h with
  | last hpos hfit => exact List.IsChain.singleton _
  | cons hmore hrest ih =>
      rcases hrest.exists_head with ⟨rest, rfl⟩
      refine List.isChain_cons_cons.mpr ⟨⟨rfl, rfl, ?_⟩, ih⟩
      exact le_min (by omega) hmore.le

/-- The last window ends where the list ends. -/
theorem getLast?_eq (h : Covers n size step a ws) : ws.getLast?.map Prod.snd = some n := by
  induction h with
  | last hpos hfit => rfl
  | cons hmore hrest ih =>
      rcases hrest.exists_head with ⟨rest, rfl⟩
      rw [List.getLast?_cons_cons]
      exact ih

/-- The items of the first window, then those of each later window after the overlap. -/
theorem rebuild {xs : List α} (h : Covers xs.length size step a ws) (hstep : step ≤ size) :
    ∀ w rest, ws = w :: rest →
      slice xs w ++ rest.flatMap (fun v => (slice xs v).drop (size - step)) = xs.drop a := by
  induction h with
  | last hpos hfit =>
      intro w rest hws
      rcases List.cons.inj hws with ⟨rfl, rfl⟩
      rw [List.flatMap_nil, List.append_nil, slice, List.take_of_length_le]
      exact List.length_drop.le
  | @cons b later hmore hrest ih =>
      intro w rest hws
      rcases List.cons.inj hws with ⟨rfl, rfl⟩
      rcases hrest.exists_head with ⟨tail, htail⟩
      have hlater := ih _ _ htail
      rw [htail, List.flatMap_cons]
      -- The overlap is within the next window, so dropping it from the window drops it
      -- from all that the later windows give back.
      have hoverlap :
          size - step ≤ (slice xs (b + step, min (b + step + size) xs.length)).length := by
        rw [length_slice (Nat.min_le_right _ _)]
        exact Nat.le_sub_of_add_le (le_min (by omega) (by omega))
      rw [← List.drop_append_of_le_length hoverlap, hlater, List.drop_drop, slice]
      have hnext : b + step + (size - step) = b + size := by omega
      rw [hnext, Nat.add_sub_cancel_left, ← List.drop_drop, List.take_append_drop]

/-- Windows that start no further apart than they are long leave no index out. -/
theorem exists_window (h : Covers n size step a ws) (hstep : step ≤ size) {i : Nat} (ha : a ≤ i)
    (hi : i < n) : ∃ w ∈ ws, w.1 ≤ i ∧ i < w.2 := by
  induction h with
  | last hpos hfit => exact ⟨_, List.mem_singleton.mpr rfl, ha, hi⟩
  | @cons b later hmore hrest ih =>
      by_cases hwithin : i < b + size
      · exact ⟨_, List.mem_cons_self, ha, hwithin⟩
      · rcases ih (by omega) with ⟨w, hw, hiw⟩
        exact ⟨w, List.mem_cons_of_mem _ hw, hiw⟩

end Covers

end Windows
