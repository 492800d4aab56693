import Mathlib.Data.Finset.Sort
import Mathlib.Data.List.AList
import Mathlib.Data.List.Perm.Basic

/-!
# Hash maps of sets

A hash map may be iterated in any order, so the order is an argument of a program that
iterates one.  Grouping collects elements in sets by key.

Main results:

- Theorem `mem_members_group`: the set of a key holds what was collected under it.
-/

namespace Collections

/-- An order in which a hash map may be iterated. -/
structure IterationOrder (α : Type) where
  arrange : List α → List α
  perm : ∀ entries, (arrange entries).Perm entries

/-- The order in which the entries are stored. -/
def IterationOrder.stored (α : Type) : IterationOrder α where
  arrange entries := entries
  perm entries := List.Perm.refl entries

/-- The order of the elements themselves. -/
def IterationOrder.sorted (α : Type) [LinearOrder α] : IterationOrder α where
  arrange entries := entries.insertionSort (· ≤ ·)
  perm entries := List.perm_insertionSort (· ≤ ·) entries

/-- Sorting forgets the order in which the entries are stored. -/
theorem IterationOrder.sorted_perm {α : Type} [LinearOrder α] {entries entries' : List α}
    (h : entries.Perm entries') : (IterationOrder.sorted α).arrange entries =
      (IterationOrder.sorted α).arrange entries' := by
  apply List.Perm.eq_of_pairwise' (List.pairwise_insertionSort (· ≤ ·) entries)
    (List.pairwise_insertionSort (· ≤ ·) entries')
  exact (List.perm_insertionSort _ entries).trans
    (h.trans (List.perm_insertionSort _ entries').symm)

theorem IterationOrder.mem_arrange {α : Type} (order : IterationOrder α) {entries : List α}
    {a : α} : a ∈ order.arrange entries ↔ a ∈ entries :=
  (order.perm entries).mem_iff

/-- The reverse of the order in which the entries are stored. -/
def IterationOrder.reversed (α : Type) : IterationOrder α where
  arrange entries := entries.reverse
  perm entries := List.reverse_perm entries

/-- Some iteration goes through given entries in any given order. -/
theorem IterationOrder.exists_arrange {α : Type} [DecidableEq α] {entries arranged : List α}
    (h : arranged.Perm entries) :
    ∃ order : IterationOrder α, order.arrange entries = arranged := by
  refine ⟨⟨fun l => if l = entries then arranged else l, ?_⟩, if_pos rfl⟩
  intro l
  split <;> rename_i hl
  · rw [hl]
    exact h
  · exact List.Perm.refl l

/-- A rearranged image is the image of a rearranged list. -/
theorem exists_perm_map {α β : Type} {f : α → β} {xs : List α} {ys : List β}
    (h : ys.Perm (xs.map f)) : ∃ zs : List α, zs.Perm xs ∧ zs.map f = ys := by
  have hself : List.Forall₂ (fun y x => y = f x) (xs.map f) xs := by
    rw [List.forall₂_map_left_iff, List.forall₂_same]
    exact fun _ _ => rfl
  rcases List.perm_comp_forall₂ h hself with ⟨zs, hzs, hperm⟩
  refine ⟨zs, hperm, ?_⟩
  have heq : List.Forall₂ (fun y z => y = z) ys (zs.map f) := by
    rw [List.forall₂_map_right_iff]
    exact hzs
  exact (List.forall₂_eq_eq_eq ▸ heq : ys = zs.map f).symm

/-- A list of images of elements with a property is the image of a list of such elements. -/
theorem exists_map_of_forall {α β : Type} {f : α → β} {P : α → Prop} {ys : List β}
    (h : ∀ y ∈ ys, ∃ x, P x ∧ f x = y) : ∃ xs : List α, xs.map f = ys ∧ ∀ x ∈ xs, P x := by
  induction ys with
  | nil => exact ⟨[], rfl, fun x hx => absurd hx List.not_mem_nil⟩
  | cons y ys ih =>
      rcases h y List.mem_cons_self with ⟨x, hx, rfl⟩
      rcases ih fun z hz => h z (List.mem_cons_of_mem _ hz) with ⟨xs, rfl, hxs⟩
      exact ⟨x :: xs, rfl, List.forall_mem_cons.mpr ⟨hx, hxs⟩⟩

/-! ## Groups -/

variable {κ α β : Type} [DecidableEq κ] [DecidableEq α]

/-- A hash map from keys to sets. -/
abbrev Groups (κ α : Type) [DecidableEq κ] [DecidableEq α] :=
  AList fun _ : κ => Finset α

namespace Groups

/-- What a key holds; a key that is not there holds nothing. -/
def members (groups : Groups κ α) (key : κ) : Finset α :=
  (groups.lookup key).getD ∅

/-- `entry(key).or_default().insert(a)`. -/
def add (groups : Groups κ α) (key : κ) (a : α) : Groups κ α :=
  groups.insert key (insert a (groups.members key))

/-- Collect the elements of a list, each under its key. -/
def group (key : β → κ) (value : β → α) (elements : List β) : Groups κ α :=
  elements.foldl (fun groups b => groups.add (key b) (value b)) ∅

theorem members_add (groups : Groups κ α) (key k : κ) (a : α) :
    (groups.add key a).members k =
      if k = key then insert a (groups.members key) else groups.members k := by
  by_cases hk : k = key
  · rw [if_pos hk, hk, add, members, AList.lookup_insert, Option.getD_some]
  · rw [if_neg hk, add, members, AList.lookup_insert_ne hk, members]

/-- What a key holds is the set of its entry. -/
theorem exists_entry_of_mem_members {groups : Groups κ α} {key : κ} {a : α}
    (h : a ∈ groups.members key) : ∃ s, ⟨key, s⟩ ∈ groups.entries ∧ a ∈ s := by
  unfold members at h
  cases hlookup : groups.lookup key with
  | none => simp [hlookup] at h
  | some s =>
      rw [hlookup, Option.getD_some] at h
      exact ⟨s, AList.mem_lookup_iff.mp hlookup, h⟩

/-- The set of a key holds what was collected under it. -/
theorem mem_members_foldl (key : β → κ) (value : β → α) (elements : List β)
    (groups : Groups κ α) (k : κ) (a : α) :
    a ∈ (elements.foldl (fun groups b => groups.add (key b) (value b)) groups).members k ↔
      (∃ b ∈ elements, key b = k ∧ value b = a) ∨ a ∈ groups.members k := by
  induction elements generalizing groups with
  | nil => simp
  | cons b elements ih =>
      rw [List.foldl_cons, ih, members_add]
      by_cases hk : k = key b
      · simp only [if_pos hk, Finset.mem_insert, List.exists_mem_cons_iff]
        grind
      · simp only [if_neg hk, List.exists_mem_cons_iff]
        grind

theorem mem_members_group {key : β → κ} {value : β → α} {elements : List β} {k : κ} {a : α} :
    a ∈ (group key value elements).members k ↔ ∃ b ∈ elements, key b = k ∧ value b = a := by
  rw [group, mem_members_foldl]
  simp [members]

theorem entry_of_members {groups : Groups κ α} {key : κ} {s : Finset α}
    (h : ⟨key, s⟩ ∈ groups.entries) : groups.members key = s := by
  rw [members, AList.mem_lookup_iff.mpr h, Option.getD_some]

/-- A key that is there holds something. -/
def NoneEmpty (groups : Groups κ α) : Prop :=
  ∀ key s, ⟨key, s⟩ ∈ groups.entries → s.Nonempty

theorem noneEmpty_empty : NoneEmpty (∅ : Groups κ α) := by
  intro key s h
  simp at h

theorem NoneEmpty.add {groups : Groups κ α} (h : NoneEmpty groups) (key : κ) (a : α) :
    NoneEmpty (groups.add key a) := by
  intro k s hentry
  have hlookup := AList.mem_lookup_iff.mpr hentry
  rw [Groups.add] at hlookup
  by_cases hk : k = key
  · subst hk
    rw [AList.lookup_insert, Option.mem_some_iff] at hlookup
    rw [← hlookup]
    exact Finset.insert_nonempty a _
  · rw [AList.lookup_insert_ne hk] at hlookup
    exact h k s (AList.mem_lookup_iff.mp hlookup)

theorem noneEmpty_group (key : β → κ) (value : β → α) (elements : List β) :
    NoneEmpty (group key value elements) := by
  have hfold : ∀ groups : Groups κ α, NoneEmpty groups →
      NoneEmpty (elements.foldl (fun groups b => groups.add (key b) (value b)) groups) := by
    induction elements with
    | nil => exact fun groups h => h
    | cons b elements ih => exact fun groups h => ih _ (h.add _ _)
  exact hfold ∅ noneEmpty_empty

/-- The entry of a key that holds something is what the key holds. -/
theorem mem_entries_iff {groups : Groups κ α} (h : NoneEmpty groups) {key : κ} {s : Finset α} :
    ⟨key, s⟩ ∈ groups.entries ↔ groups.members key = s ∧ s.Nonempty := by
  constructor
  · intro hentry
    exact ⟨entry_of_members hentry, h key s hentry⟩
  · rintro ⟨rfl, a, ha⟩
    rcases exists_entry_of_mem_members ha with ⟨s, hentry, -⟩
    rw [entry_of_members hentry]
    exact hentry

/-- Elements in any order are grouped alike. -/
theorem members_group_perm {key : β → κ} {value : β → α} {elements elements' : List β}
    (h : elements.Perm elements') (k : κ) :
    (group key value elements).members k = (group key value elements').members k := by
  ext a
  simp only [mem_members_group, h.mem_iff]

end Groups

end Collections
