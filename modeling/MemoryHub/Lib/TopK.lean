import Mathlib.Data.List.Perm.Basic
import Mathlib.Data.List.Sort
import Mathlib.Tactic.Common

/-!
# The first `k` of a sorted list

A list is sorted by a total preorder and cut after `k` elements.  The sort is stable, so
elements that compare alike stay in the order in which they came.

Main results:

- Theorem `forall_mem_top`: if `k` elements have a property that better elements inherit,
  all that is kept has it.
- Theorem `le_of_notMem_top`: nothing that is cut off is better than what is kept.
- Theorem `top_eq_iff`: what is kept does not depend on the order exactly if elements that
  compare alike are the same wherever fewer than `k` are better.
- Theorem `mergeSort_eq_insertionSort`: any stable sort gives this order.
-/

namespace TopK

variable {α : Type*}

/-- Sort, best first, and keep the first `k`. -/
def top (le : α → α → Bool) (k : Nat) (xs : List α) : List α :=
  (xs.mergeSort le).take k

/-- A comparison that is transitive and total. -/
structure TotalPreorder (le : α → α → Bool) : Prop where
  trans : ∀ a b c, le a b → le b c → le a c
  total : ∀ a b, le a b || le b a

/-- How many are better than `a`. -/
def better (le : α → α → Bool) (a : α) (xs : List α) : Nat :=
  xs.countP fun c => !le a c

theorem length_top (le : α → α → Bool) (k : Nat) (xs : List α) :
    (top le k xs).length = min k xs.length := by
  rw [top, List.length_take, List.length_mergeSort]

theorem mem_of_mem_top {le : α → α → Bool} {k : Nat} {xs : List α} {a : α}
    (h : a ∈ top le k xs) : a ∈ xs :=
  List.mem_mergeSort.mp (List.mem_of_mem_take h)

variable {le : α → α → Bool}

theorem TotalPreorder.refl (hle : TotalPreorder le) (a : α) : le a a = true := by
  have htotal := hle.total a a
  rwa [Bool.or_self] at htotal

/-! ## What is kept -/

theorem pairwise_top (hle : TotalPreorder le) (k : Nat) (xs : List α) :
    (top le k xs).Pairwise fun a b => le a b :=
  (List.pairwise_mergeSort hle.trans hle.total xs).sublist (List.take_sublist _ _)

/-- In a sorted list the elements with a property that better elements inherit come first. -/
theorem forall_mem_take {p : α → Bool} (hp : ∀ a b, le a b → p b → p a) {xs : List α}
    (hsorted : xs.Pairwise fun a b => le a b) {k : Nat} (hk : k ≤ xs.countP p) :
    ∀ a ∈ xs.take k, p a := by
  induction xs generalizing k with
  | nil => simp
  | cons x xs ih =>
      rcases List.pairwise_cons.mp hsorted with ⟨hhead, htail⟩
      by_cases hx : p x = true
      · cases k with
        | zero => simp
        | succ k =>
            rw [List.countP_cons_of_pos hx] at hk
            intro a ha
            rcases List.mem_cons.mp ha with rfl | ha
            · exact hx
            · exact ih htail (Nat.le_of_succ_le_succ hk) a ha
      · -- Nothing after the head has the property either.
        have hnone : xs.countP p = 0 := by
          rw [List.countP_eq_zero]
          intro a ha hpa
          exact hx (hp x a (hhead a ha) hpa)
        rw [List.countP_cons_of_neg hx, hnone, Nat.le_zero] at hk
        rw [hk]
        simp

/-- If `k` elements have a property that better elements inherit, all that is kept has it. -/
theorem forall_mem_top (hle : TotalPreorder le) {p : α → Bool} (hp : ∀ a b, le a b → p b → p a)
    {xs : List α} {k : Nat} (hk : k ≤ xs.countP p) : ∀ a ∈ top le k xs, p a := by
  rw [← (List.mergeSort_perm xs le).countP_eq] at hk
  exact forall_mem_take hp (List.pairwise_mergeSort hle.trans hle.total xs) hk

/-- Nothing that is cut off is better than what is kept. -/
theorem le_of_notMem_top (hle : TotalPreorder le) {k : Nat} {xs : List α} {a b : α}
    (ha : a ∈ top le k xs) (hb : b ∈ xs) (hcut : b ∉ top le k xs) : le a b := by
  have hsorted := List.pairwise_mergeSort hle.trans hle.total xs
  rw [← List.take_append_drop k (xs.mergeSort le), List.pairwise_append] at hsorted
  have hb' : b ∈ xs.mergeSort le := List.mem_mergeSort.mpr hb
  rw [← List.take_append_drop k (xs.mergeSort le), List.mem_append] at hb'
  rcases hb' with hkept | hdrop
  · exact absurd hkept hcut
  · exact hsorted.2.2 a ha b hdrop

/-! ## Elements that compare alike -/

/-- Elements that compare alike are the same wherever fewer than `k` are better. -/
def TiesAlike (le : α → α → Bool) (k : Nat) (xs : List α) : Prop :=
  ∀ a ∈ xs, ∀ b ∈ xs, le a b → le b a → better le a xs < k → a = b

/-- Sorted lists of the same elements agree up to `k` if ties do not matter there. -/
theorem take_eq_take {xs ys : List α} (hx : xs.Pairwise fun a b => le a b)
    (hy : ys.Pairwise fun a b => le a b) (hle : TotalPreorder le) (hperm : xs.Perm ys) {k : Nat}
    (hties : TiesAlike le k xs) : xs.take k = ys.take k := by
  induction xs generalizing ys k with
  | nil => rw [hperm.nil_eq]
  | cons a xs ih =>
      cases ys with
      | nil => exact absurd hperm.symm (List.not_perm_nil_cons a xs)
      | cons b ys =>
          cases k with
          | zero => rfl
          | succ k =>
              rcases List.pairwise_cons.mp hx with ⟨hxhead, hxtail⟩
              rcases List.pairwise_cons.mp hy with ⟨hyhead, hytail⟩
              have hfirst : ∀ c ∈ a :: xs, le a c = true := by
                intro c hc
                rcases List.mem_cons.mp hc with rfl | hc
                · exact hle.refl c
                · exact hxhead c hc
              have hba : le b a = true := by
                rcases List.mem_cons.mp (hperm.subset List.mem_cons_self) with rfl | ha
                · exact hle.refl a
                · exact hyhead a ha
              have hb : b ∈ a :: xs := hperm.symm.subset List.mem_cons_self
              have hnone : better le a (a :: xs) = 0 := by
                rw [better, List.countP_eq_zero]
                intro c hc
                rw [hfirst c hc]
                simp
              have hab : a = b := hties a List.mem_cons_self b hb (hfirst b hb) hba (by omega)
              subst hab
              rw [List.take_succ_cons, List.take_succ_cons]
              congr 1
              refine ih hxtail hytail (List.perm_cons a |>.mp hperm) ?_
              intro c hc d hd hcd hdc hbetter
              refine hties c (List.mem_cons_of_mem a hc) d (List.mem_cons_of_mem a hd) hcd hdc ?_
              have hone : better le c (a :: xs) ≤ better le c xs + 1 := by
                rw [better, List.countP_cons]
                split <;> simp [better]
              omega

/-- A first element is kept behind the better ones, before those that compare alike. -/
theorem getElem?_top_cons (hle : TotalPreorder le) {k : Nat} {a : α} {xs : List α}
    (hk : better le a (a :: xs) < k) : (top le k (a :: xs))[better le a (a :: xs)]? = some a := by
  rcases List.mergeSort_cons hle.trans hle.total a xs with ⟨front, back, hcons, hsort, hfront⟩
  have hsorted := List.pairwise_mergeSort hle.trans hle.total (a :: xs)
  rw [hcons, List.pairwise_append] at hsorted
  have hback : ∀ c ∈ a :: back, le a c = true := by
    intro c hc
    rcases List.mem_cons.mp hc with rfl | hc
    · exact hle.refl c
    · exact (List.pairwise_cons.mp hsorted.2.1).1 c hc
  have hlength : better le a (a :: xs) = front.length := by
    rw [better, ← (List.mergeSort_perm (a :: xs) le).countP_eq, hcons, List.countP_append,
      List.countP_eq_length.mpr hfront, List.countP_eq_zero.mpr, Nat.add_zero]
    intro c hc
    rw [hback c hc]
    simp
  rw [top, List.getElem?_take_of_lt hk, hcons, hlength, List.getElem?_append_right (Nat.le_refl _),
    Nat.sub_self]
  rfl

/-- What is kept does not depend on the order exactly if ties do not matter. -/
theorem top_eq_iff [DecidableEq α] (hle : TotalPreorder le) {k : Nat} {xs : List α} :
    (∀ ys zs, ys.Perm xs → zs.Perm xs → top le k ys = top le k zs) ↔ TiesAlike le k xs := by
  constructor
  · intro h a ha b hb hab hba hbetter
    have hfirst : (a :: xs.erase a).Perm xs := (List.perm_cons_erase ha).symm
    have hsecond : (b :: xs.erase b).Perm xs := (List.perm_cons_erase hb).symm
    have halike : better le b xs = better le a xs := by
      have hsame : ∀ c, (!le b c) = (!le a c) := by
        intro c
        rw [Bool.not_inj_iff, Bool.eq_iff_iff]
        exact ⟨hle.trans a b c hab, hle.trans b a c hba⟩
      simp only [better, hsame]
    have hfirst' : better le a (a :: xs.erase a) = better le a xs := hfirst.countP_eq _
    have hsecond' : better le b (b :: xs.erase b) = better le a xs :=
      (hsecond.countP_eq _).trans halike
    have hheads := h _ _ hfirst hsecond
    have hleft := getElem?_top_cons hle (hfirst'.symm ▸ hbetter)
    have hright := getElem?_top_cons hle (hsecond'.symm ▸ hbetter)
    rw [hfirst', hheads] at hleft
    rw [hsecond', hleft] at hright
    exact Option.some.inj hright
  · intro hties ys zs hys hzs
    have hsort := fun l : List α => List.pairwise_mergeSort hle.trans hle.total l
    have hperm := fun l : List α => List.mergeSort_perm l le
    have hsorted : TiesAlike le k (xs.mergeSort le) := by
      intro a ha b hb hab hba hbetter
      rw [better, (hperm xs).countP_eq] at hbetter
      exact hties a ((hperm xs).subset ha) b ((hperm xs).subset hb) hab hba hbetter
    have heq : ∀ l : List α, l.Perm xs → top le k l = top le k xs := by
      intro l hl
      exact (take_eq_take (hsort xs) (hsort l) hle
        ((hperm xs).trans (hl.symm.trans (hperm l).symm)) hsorted).symm
    rw [heq ys hys, heq zs hzs]

/-! ## Stability -/

/-- An element goes behind what it must not precede, before all else. -/
theorem orderedInsert_append {a : α} {front back : List α} (hfront : ∀ b ∈ front, (!le a b) = true)
    (hback : ∀ b ∈ back, le a b = true) :
    (front ++ back).orderedInsert (fun x y => le x y = true) a = front ++ a :: back := by
  induction front with
  | nil =>
      cases back with
      | nil => rfl
      | cons b back => exact List.orderedInsert_cons_of_le _ back (hback b List.mem_cons_self)
  | cons b front ih =>
      have hnot : ¬ le a b = true := by
        simpa using hfront b List.mem_cons_self
      rw [List.cons_append, List.orderedInsert_of_not_le _ (front ++ back) hnot,
        ih fun c hc => hfront c (List.mem_cons_of_mem b hc)]
      rfl

/-- The merge sort orders a list as the insertion sort does. -/
theorem mergeSort_eq_insertionSort (hle : TotalPreorder le) (xs : List α) :
    xs.mergeSort le = xs.insertionSort fun a b => le a b = true := by
  induction xs with
  | nil => simp
  | cons a xs ih =>
      rcases List.mergeSort_cons hle.trans hle.total a xs with ⟨front, back, hcons, hsort, hfront⟩
      have hsorted := List.pairwise_mergeSort hle.trans hle.total (a :: xs)
      rw [hcons, List.pairwise_append] at hsorted
      rw [hcons, List.insertionSort_cons, ← ih, hsort,
        orderedInsert_append hfront (List.pairwise_cons.mp hsorted.2.1).1]

end TopK
