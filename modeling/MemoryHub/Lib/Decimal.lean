import Mathlib.Algebra.Order.Ring.Nat
import Mathlib.Tactic.Common

/-!
# Decimal numerals

Numbers as text: `Nat.repr` is what `to_string` prints, and `parseBelow` is what
`str::parse` reads for an unsigned type with the given number of values.

Main results:

- Theorem `parseBelow_repr`: a printed number parses back.
- Theorem `append_numeral_inj`: a text, a separator that is no digit, and a
  numeral determine the text and the number.
-/

namespace Decimal

/-! ## Printing and parsing -/

/-- The digits of an unsigned numeral, after its optional plus sign. -/
def stripPlus : List Char → List Char
  | '+' :: rest => rest
  | cs => cs

/-- `str::parse` for an unsigned integer type with `bound` values. -/
def parseBelow (bound : Nat) (s : String) : Option Nat :=
  let digits := stripPlus s.toList
  if digits ≠ [] ∧ digits.all Char.isDigit = true ∧ Nat.ofDigitChars 10 digits 0 < bound then
    some (Nat.ofDigitChars 10 digits 0)
  else none

/-- `format!` with a minimal width and leading zeros. -/
def padded (width n : Nat) : String :=
  String.ofList (List.replicate (width - (Nat.repr n).length) '0') ++ Nat.repr n

/-- A character of a printed number is a digit. -/
theorem isDigit_of_mem_repr {n : Nat} {c : Char} (h : c ∈ (Nat.repr n).toList) :
    c.isDigit = true := by
  rw [Nat.toList_repr] at h
  exact Nat.isDigit_of_mem_toDigits (by decide) (by decide) h

/-- A printed number has no sign to strip. -/
theorem stripPlus_repr (n : Nat) : stripPlus (Nat.repr n).toList = (Nat.repr n).toList := by
  cases hcs : (Nat.repr n).toList with
  | nil => rfl
  | cons c cs =>
      have hc : c.isDigit = true := isDigit_of_mem_repr (hcs ▸ List.mem_cons_self)
      have hne : c ≠ '+' := by
        intro heq
        rw [heq] at hc
        exact absurd hc (by decide)
      simp [stripPlus, hne]

/-- A printed number parses back, if the type has room for it. -/
theorem parseBelow_repr {bound n : Nat} (h : n < bound) :
    parseBelow bound (Nat.repr n) = some n := by
  have hne : (Nat.repr n).toList ≠ [] := by
    rw [Nat.toList_repr]
    exact Nat.toDigits_ne_nil
  have hdigits : (Nat.repr n).toList.all Char.isDigit = true := by
    rw [List.all_eq_true]
    intro c hc
    exact isDigit_of_mem_repr hc
  have hvalue : Nat.ofDigitChars 10 (Nat.repr n).toList 0 = n := by
    rw [Nat.toList_repr]
    exact Nat.ofDigitChars_ten_toDigits
  simp only [parseBelow, stripPlus_repr, hne, hdigits, hvalue, ne_eq, not_false_eq_true, h,
    and_self, if_true]

/-! ## Leading zeros -/

theorem toList_padded (width n : Nat) : (padded width n).toList =
    List.replicate (width - (Nat.repr n).length) '0' ++ (Nat.repr n).toList := by
  rw [padded, String.toList_append, String.toList_ofList]

theorem isDigit_of_mem_padded {width n : Nat} {c : Char} (h : c ∈ (padded width n).toList) :
    c.isDigit = true := by
  rw [toList_padded] at h
  rcases List.mem_append.mp h with hzeros | hdigits
  · rw [List.eq_of_mem_replicate hzeros]
    decide
  · exact isDigit_of_mem_repr hdigits

theorem all_isDigit_padded (width n : Nat) : (padded width n).toList.all Char.isDigit = true := by
  rw [List.all_eq_true]
  exact fun _ => isDigit_of_mem_padded

/-- Leading zeros do not change the value. -/
theorem value_padded (width n : Nat) : Nat.ofDigitChars 10 (padded width n).toList 0 = n := by
  rw [toList_padded, Nat.ofDigitChars_append, Nat.ofDigitChars_replicate_zero, Nat.mul_zero,
    Nat.toList_repr]
  exact Nat.ofDigitChars_ten_toDigits

theorem padded_ne_nil (width n : Nat) : (padded width n).toList ≠ [] := by
  rw [toList_padded, Nat.toList_repr]
  exact List.append_ne_nil_of_right_ne_nil _ Nat.toDigits_ne_nil

/-- A number with leading zeros parses back, if the type has room for it. -/
theorem parseBelow_padded {bound n : Nat} (width : Nat) (h : n < bound) :
    parseBelow bound (padded width n) = some n := by
  have hplus : stripPlus (padded width n).toList = (padded width n).toList := by
    cases hcs : (padded width n).toList with
    | nil => rfl
    | cons c cs =>
        have hc : c.isDigit = true := isDigit_of_mem_padded (hcs ▸ List.mem_cons_self)
        have hne : c ≠ '+' := by
          intro heq
          rw [heq] at hc
          exact absurd hc (by decide)
        simp [stripPlus, hne]
  simp only [parseBelow, hplus, padded_ne_nil, all_isDigit_padded, value_padded, ne_eq,
    not_false_eq_true, h, and_self, if_true]

/-- A number that fits is printed with exactly the width. -/
theorem length_padded {width n : Nat} (hwidth : 0 < width) (h : n < 10 ^ width) :
    (padded width n).toList.length = width := by
  have hlen : (Nat.repr n).length ≤ width := (Nat.length_repr_le_iff hwidth).mpr h
  rw [toList_padded, List.length_append, List.length_replicate, String.length_toList]
  omega

theorem isDigit_iff {c : Char} : c.isDigit = true ↔ 48 ≤ c.toNat ∧ c.toNat ≤ 57 := by
  simp only [Char.isDigit, Bool.and_eq_true, decide_eq_true_eq]
  exact Iff.rfl

/-- Digits take one byte each. -/
theorem utf8ByteSize_digits {cs : List Char} (h : ∀ c ∈ cs, c.isDigit = true) :
    (String.ofList cs).utf8ByteSize = cs.length := by
  induction cs with
  | nil => rfl
  | cons c cs ih =>
      have hsplit : String.ofList (c :: cs) = String.singleton c ++ String.ofList cs := by
        rw [← String.toList_inj]
        simp
      have hsize : c.utf8Size = 1 := by
        have hc := (isDigit_iff.mp (h c List.mem_cons_self)).2
        apply Char.utf8Size_eq_one_iff.mpr
        exact Nat.le_trans hc (by decide)
      rw [hsplit, String.utf8ByteSize_append, String.utf8ByteSize_singleton, hsize,
        ih fun d hd => h d (List.mem_cons_of_mem c hd), List.length_cons, Nat.add_comm]

/-- The value of a digit. -/
def digitValue (c : Char) : Nat :=
  c.toNat - '0'.toNat

/-- The first digit counts for as many places as follow. -/
theorem value_cons (c : Char) (cs : List Char) :
    Nat.ofDigitChars 10 (c :: cs) 0 = 10 ^ cs.length * digitValue c + Nat.ofDigitChars 10 cs 0 := by
  rw [Nat.ofDigitChars_cons, Nat.ofDigitChars_eq_ofDigitChars_zero, Nat.mul_zero, Nat.zero_add,
    digitValue]

theorem value_lt {cs : List Char} (h : ∀ c ∈ cs, c.isDigit = true) :
    Nat.ofDigitChars 10 cs 0 < 10 ^ cs.length := by
  induction cs with
  | nil => simp
  | cons c cs ih =>
      rw [value_cons, List.length_cons, Nat.pow_succ]
      have hrest := ih fun d hd => h d (List.mem_cons_of_mem c hd)
      have hdigit : digitValue c ≤ 9 := by
        have hc := isDigit_iff.mp (h c List.mem_cons_self)
        simp only [digitValue, Char.reduceToNat]
        omega
      have hfirst : 10 ^ cs.length * digitValue c ≤ 10 ^ cs.length * 9 :=
        Nat.mul_le_mul_left _ hdigit
      omega

/-- Digits of one length are ordered as text as their values are. -/
theorem lt_of_value_lt {xs ys : List Char} (hlen : xs.length = ys.length)
    (hxs : ∀ c ∈ xs, c.isDigit = true) (hys : ∀ c ∈ ys, c.isDigit = true)
    (h : Nat.ofDigitChars 10 xs 0 < Nat.ofDigitChars 10 ys 0) : xs < ys := by
  induction xs generalizing ys with
  | nil =>
      rw [List.length_nil] at hlen
      rw [List.length_eq_zero_iff.mp hlen.symm] at h
      exact absurd h (Nat.lt_irrefl _)
  | cons x xs ih =>
      cases ys with
      | nil => simp at hlen
      | cons y ys =>
          rw [List.length_cons, List.length_cons, Nat.add_right_cancel_iff] at hlen
          have hrest := ih hlen (fun c hc => hxs c (List.mem_cons_of_mem x hc))
            (fun c hc => hys c (List.mem_cons_of_mem y hc))
          have hx := isDigit_iff.mp (hxs x List.mem_cons_self)
          have hy := isDigit_iff.mp (hys y List.mem_cons_self)
          rw [value_cons, value_cons, ← hlen] at h
          rw [List.cons_lt_cons_iff]
          rcases Nat.lt_trichotomy x.toNat y.toNat with hlt | heq | hgt
          · exact Or.inl hlt
          · have hxy : x = y := Char.toNat_inj.mp heq
            refine Or.inr ⟨hxy, hrest ?_⟩
            rw [hxy] at h
            exact Nat.lt_of_add_lt_add_left h
          · -- A greater first digit outweighs all that follows.
            exfalso
            have hlow := value_lt fun c hc => hys c (List.mem_cons_of_mem y hc)
            have hfirst : 10 ^ xs.length * (digitValue y + 1) ≤ 10 ^ xs.length * digitValue x := by
              apply Nat.mul_le_mul_left
              simp only [digitValue, Char.reduceToNat]
              omega
            rw [Nat.mul_add, Nat.mul_one] at hfirst
            rw [← hlen] at hlow
            omega

/-- Numbers printed with one width are ordered as text as they are. -/
theorem padded_lt {width m n : Nat} (hwidth : 0 < width) (h : m < n) (hn : n < 10 ^ width) :
    (padded width m).toList < (padded width n).toList := by
  apply lt_of_value_lt
  · rw [length_padded hwidth (Nat.lt_trans h hn), length_padded hwidth hn]
  · exact fun _ => isDigit_of_mem_padded
  · exact fun _ => isDigit_of_mem_padded
  · rw [value_padded, value_padded]
    exact h

/-- What comes first decides between texts that begin with as much. -/
theorem append_lt_append {xs ys us vs : List Char} (hlen : xs.length = ys.length) (h : xs < ys) :
    xs ++ us < ys ++ vs := by
  induction xs generalizing ys with
  | nil =>
      rw [List.length_eq_zero_iff.mp hlen.symm] at h
      exact absurd h (List.lt_irrefl _)
  | cons x xs ih =>
      cases ys with
      | nil => simp at hlen
      | cons y ys =>
          rw [List.length_cons, List.length_cons, Nat.add_right_cancel_iff] at hlen
          rw [List.cons_append, List.cons_append, List.cons_lt_cons_iff]
          rcases List.cons_lt_cons_iff.mp h with hlt | ⟨heq, hrest⟩
          · exact Or.inl hlt
          · exact Or.inr ⟨heq, ih hlen hrest⟩

/-! ## Numbered texts -/

theorem repr_inj {m n : Nat} : Nat.repr m = Nat.repr n ↔ m = n := by
  constructor
  · intro h
    have hm := parseBelow_repr (Nat.lt_succ_of_le (Nat.le_max_left m n))
    have hn := parseBelow_repr (Nat.lt_succ_of_le (Nat.le_max_right m n))
    rw [h, hn] at hm
    exact (Option.some.inj hm).symm
  · intro h
    rw [h]

/-- The part before the last occurrence of a separator is determined. -/
theorem append_sep_inj {α : Type*} {sep : α} {xs ys us vs : List α} (hus : sep ∉ us)
    (hvs : sep ∉ vs) (h : xs ++ sep :: us = ys ++ sep :: vs) : xs = ys ∧ us = vs := by
  rcases List.append_eq_append_iff.mp h with ⟨as, hys, hsep⟩ | ⟨as, hxs, hsep⟩
  · cases as with
    | nil =>
        rw [List.append_nil] at hys
        exact ⟨hys.symm, (List.cons.inj hsep).2⟩
    | cons a as =>
        -- The separator of the second text would lie in the first one's tail.
        have hmem : sep ∈ us := by
          rw [(List.cons.inj hsep).2]
          exact List.mem_append_right _ List.mem_cons_self
        exact absurd hmem hus
  · cases as with
    | nil =>
        rw [List.append_nil] at hxs
        exact ⟨hxs, (List.cons.inj hsep).2.symm⟩
    | cons a as =>
        have hmem : sep ∈ vs := by
          rw [(List.cons.inj hsep).2]
          exact List.mem_append_right _ List.mem_cons_self
        exact absurd hmem hvs

/-- A text followed by a separator and a number determines both. -/
theorem append_numeral_inj {sep : Char} (hsep : sep.isDigit = false) {p q : String}
    {m n : Nat} (h : p ++ String.singleton sep ++ Nat.repr m =
      q ++ String.singleton sep ++ Nat.repr n) : p = q ∧ m = n := by
  have hnot : ∀ k : Nat, sep ∉ (Nat.repr k).toList := by
    intro k hmem
    rw [isDigit_of_mem_repr hmem] at hsep
    contradiction
  have hlist := congrArg String.toList h
  simp only [String.toList_append, String.toList_singleton, List.append_assoc,
    List.singleton_append] at hlist
  rcases append_sep_inj (hnot m) (hnot n) hlist with ⟨hpq, hmn⟩
  exact ⟨String.toList_inj.mp hpq, repr_inj.mp (String.toList_inj.mp hmn)⟩

end Decimal
