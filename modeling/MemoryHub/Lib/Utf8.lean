import Mathlib.Order.Bounds.Basic
import Mathlib.Tactic.Common

/-!
# Text as bytes

Text that arrives as bytes is decoded with a replacement character for each maximal part that
is not UTF-8, and cut at a boundary between characters, as the Rust standard library
documents it.

Main results:

- Theorem `lossyChars_encode_append`: bytes that begin with a text decode to that text, and the
  rest by itself.
- Theorem `floorCharBoundary_isGreatest`: the last boundary that is not past an index.
- Theorem `prefixWithin_isLongest`: the text up to there is the longest prefix that fits.
- Theorem `IsLongestPrefix.of_append`: what lies beyond the limit does not matter.
-/

namespace Utf8

/-- The bytes of a text. -/
def encode (s : String) : List UInt8 :=
  s.toList.flatMap String.utf8EncodeChar

@[simp]
theorem encode_append (s t : String) : encode (s ++ t) = encode s ++ encode t := by
  rw [encode, String.toList_append, List.flatMap_append]
  rfl

theorem toByteArray_encode (s : String) : (encode s).toByteArray = s.toByteArray := by
  rw [← String.utf8Encode_toList]
  rfl

@[simp]
theorem length_encode (s : String) : (encode s).length = s.utf8ByteSize := by
  rw [← List.size_toByteArray, toByteArray_encode, String.size_toByteArray]

/-! ## Lossy decoding -/

/-- The first two bytes of a character of three. -/
def opensThree (b c : UInt8) : Bool :=
  (b = 0xE0 && 0xA0 ≤ c && c ≤ 0xBF) || (0xE1 ≤ b && b ≤ 0xEC && 0x80 ≤ c && c ≤ 0xBF) ||
    (b = 0xED && 0x80 ≤ c && c ≤ 0x9F) || (0xEE ≤ b && b ≤ 0xEF && 0x80 ≤ c && c ≤ 0xBF)

/-- The first two bytes of a character of four. -/
def opensFour (b c : UInt8) : Bool :=
  (b = 0xF0 && 0x90 ≤ c && c ≤ 0xBF) || (0xF1 ≤ b && b ≤ 0xF3 && 0x80 ≤ c && c ≤ 0xBF) ||
    (b = 0xF4 && 0x80 ≤ c && c ≤ 0x8F)

/-- How many bytes at the front, where no character starts, are replaced together: as many as
could have begun one, but at least one. -/
def brokenLength : List UInt8 → Nat
  | b :: c :: rest =>
      if opensThree b c then 2
      else if opensFour b c then
        match rest with
        | d :: _ => if 0x80 ≤ d ∧ d ≤ 0xBF then 3 else 2
        | [] => 2
      else 1
  | _ => 1

/-- `String::from_utf8_lossy`, in characters. -/
def lossyChars : List UInt8 → List Char
  | [] => []
  | b :: rest =>
      match (b :: rest).toByteArray.utf8DecodeChar? 0 with
      | some c => c :: lossyChars (rest.drop (c.utf8Size - 1))
      | none => '\uFFFD' :: lossyChars (rest.drop (brokenLength (b :: rest) - 1))
termination_by bytes => bytes.length

/-- `String::from_utf8_lossy`. -/
def fromUtf8Lossy (bytes : List UInt8) : String :=
  String.ofList (lossyChars bytes)

/-- A character at the front is decoded. -/
theorem lossyChars_utf8EncodeChar_append (c : Char) (rest : List UInt8) :
    lossyChars (String.utf8EncodeChar c ++ rest) = c :: lossyChars rest := by
  have hlength : (String.utf8EncodeChar c).length = c.utf8Size := String.length_utf8EncodeChar c
  have hdecode : (String.utf8EncodeChar c ++ rest).toByteArray.utf8DecodeChar? 0 = some c := by
    rw [List.toByteArray_append]
    exact ByteArray.utf8DecodeChar?_utf8EncodeChar_append
  cases hbytes : String.utf8EncodeChar c with
  | nil =>
      rw [hbytes, List.length_nil] at hlength
      exact absurd hlength.symm c.utf8Size_pos.ne'
  | cons b more =>
      rw [hbytes, List.cons_append] at hdecode
      rw [hbytes, List.length_cons] at hlength
      rw [List.cons_append, lossyChars, hdecode]
      simp only
      rw [← hlength, Nat.add_sub_cancel, List.drop_left]

/-- Bytes that begin with a text decode to that text, and the rest by itself. -/
theorem lossyChars_encode_append (s : String) (rest : List UInt8) :
    lossyChars (encode s ++ rest) = s.toList ++ lossyChars rest := by
  unfold encode
  induction s.toList with
  | nil => rfl
  | cons c cs ih =>
      rw [List.flatMap_cons, List.append_assoc, lossyChars_utf8EncodeChar_append, ih,
        List.cons_append]

theorem fromUtf8Lossy_encode_append (s : String) (rest : List UInt8) :
    fromUtf8Lossy (encode s ++ rest) = s ++ fromUtf8Lossy rest := by
  rw [fromUtf8Lossy, lossyChars_encode_append, String.ofList_append, String.ofList_toList,
    fromUtf8Lossy]

/-- A text comes back. -/
theorem fromUtf8Lossy_encode (s : String) : fromUtf8Lossy (encode s) = s := by
  have hnothing : fromUtf8Lossy [] = "" := by
    rw [fromUtf8Lossy, lossyChars]
  rw [← List.append_nil (encode s), fromUtf8Lossy_encode_append, hnothing, String.append_empty]

/-! ## Boundaries -/

/-- `str::is_char_boundary`. -/
def isCharBoundary (s : String) (index : Nat) : Bool :=
  (⟨index⟩ : String.Pos.Raw).isValid s

theorem isCharBoundary_iff {s : String} {index : Nat} :
    isCharBoundary s index = true ↔ ∃ p q, s = p ++ q ∧ p.utf8ByteSize = index := by
  rw [isCharBoundary, String.Pos.Raw.isValid_eq_true_iff, String.Pos.Raw.isValid_iff_exists_append]
  refine exists_congr fun p => exists_congr fun q => and_congr_right fun _ => ?_
  rw [String.Pos.Raw.ext_iff]
  exact eq_comm

/-- The loop of `floor_char_boundary`. -/
def floorFrom (s : String) : Nat → Nat
  | 0 => 0
  | boundary + 1 => if isCharBoundary s (boundary + 1) then boundary + 1 else floorFrom s boundary

/-- `floor_char_boundary`. -/
def floorCharBoundary (s : String) (index : Nat) : Nat :=
  if s.utf8ByteSize ≤ index then s.utf8ByteSize else floorFrom s index

theorem floorFrom_isGreatest (s : String) (index : Nat) :
    IsGreatest {i | isCharBoundary s i = true ∧ i ≤ index} (floorFrom s index) := by
  induction index with
  | zero =>
      refine ⟨⟨isCharBoundary_iff.mpr ⟨"", s, String.empty_append.symm, rfl⟩, Nat.le_refl 0⟩, ?_⟩
      rintro i ⟨-, hi⟩
      exact hi
  | succ index ih =>
      rw [floorFrom]
      split <;> rename_i hboundary
      · exact ⟨⟨hboundary, Nat.le_refl _⟩, fun i hi => hi.2⟩
      · rcases ih with ⟨⟨hfloor, hle⟩, hgreatest⟩
        refine ⟨⟨hfloor, Nat.le_succ_of_le hle⟩, ?_⟩
        rintro i ⟨hi, hindex⟩
        rcases Nat.lt_or_eq_of_le hindex with hlt | rfl
        · exact hgreatest ⟨hi, Nat.le_of_lt_succ hlt⟩
        · exact absurd hi hboundary

/-- The last boundary that is not past the index. -/
theorem floorCharBoundary_isGreatest (s : String) (index : Nat) :
    IsGreatest {i | isCharBoundary s i = true ∧ i ≤ index} (floorCharBoundary s index) := by
  unfold floorCharBoundary
  split <;> rename_i hsize
  · refine ⟨⟨isCharBoundary_iff.mpr ⟨s, "", String.append_empty.symm, rfl⟩, hsize⟩, ?_⟩
    rintro i ⟨hi, -⟩
    rcases isCharBoundary_iff.mp hi with ⟨p, q, rfl, rfl⟩
    rw [String.utf8ByteSize_append]
    exact Nat.le_add_right _ _
  · exact floorFrom_isGreatest s index

/-! ## Prefixes -/

/-- `&s[..index]`, which would panic at an index that is no boundary. -/
def sliceTo (s : String) (index : Nat) (h : isCharBoundary s index = true) : String :=
  .ofByteArray (s.toByteArray.extract 0 index)
    (String.Pos.Raw.isValid_eq_true_iff.mp h).isValidUTF8_extract_zero

theorem sliceTo_append (p q : String) (h : isCharBoundary (p ++ q) p.utf8ByteSize = true) :
    sliceTo (p ++ q) p.utf8ByteSize h = p := by
  rw [← String.toByteArray_inj]
  change (p ++ q).toByteArray.extract 0 p.utf8ByteSize = p.toByteArray
  rw [String.toByteArray_append]
  exact ByteArray.extract_append_eq_left String.size_toByteArray.symm

/-- `&s[..floor_char_boundary(s, limit)]`. -/
def prefixWithin (s : String) (limit : Nat) : String :=
  sliceTo s (floorCharBoundary s limit) (floorCharBoundary_isGreatest s limit).1.1

/-- Of two ways to split a text, the one with the shorter front splits the longer front. -/
theorem exists_append_of_le {e rest p q : String} (h : e ++ rest = p ++ q)
    (hle : e.utf8ByteSize ≤ p.utf8ByteSize) : ∃ a, p = e ++ a := by
  have hchars : e.toList ++ rest.toList = p.toList ++ q.toList := by
    rw [← String.toList_append, ← String.toList_append, h]
  rcases List.append_eq_append_iff.mp hchars with ⟨a, ha, -⟩ | ⟨a, ha, -⟩
  · refine ⟨String.ofList a, ?_⟩
    rw [← String.toList_inj, String.toList_append, String.toList_ofList, ha]
  · have hp : e = p ++ String.ofList a := by
      rw [← String.toList_inj, String.toList_append, String.toList_ofList, ha]
    rw [hp, String.utf8ByteSize_append] at hle
    have hempty : String.ofList a = "" := String.utf8ByteSize_eq_zero_iff.mp (by omega)
    rw [hempty, String.append_empty] at hp
    exact ⟨"", by rw [hp, String.append_empty]⟩

/-- The text is a prefix of at most so many bytes, and no prefix that fits is longer. -/
structure IsLongestPrefix (limit : Nat) (s e : String) : Prop where
  isPrefix : ∃ rest, s = e ++ rest
  fits : e.utf8ByteSize ≤ limit
  longest : ∀ p q, s = p ++ q → p.utf8ByteSize ≤ limit → p.utf8ByteSize ≤ e.utf8ByteSize

/-- The text up to the boundary is the longest prefix that fits. -/
theorem prefixWithin_isLongest (s : String) (limit : Nat) :
    IsLongestPrefix limit s (prefixWithin s limit) := by
  rcases floorCharBoundary_isGreatest s limit with ⟨⟨hboundary, hle⟩, hgreatest⟩
  rcases isCharBoundary_iff.mp hboundary with ⟨e, rest, hs, hsize⟩
  have hlongest : prefixWithin s limit = e := by
    unfold prefixWithin
    subst hs
    simp only [← hsize]
    exact sliceTo_append e rest _
  rw [hlongest]
  refine ⟨⟨rest, hs⟩, hsize ▸ hle, ?_⟩
  intro p q hsplit hp
  rw [hsize]
  exact hgreatest ⟨isCharBoundary_iff.mpr ⟨p, q, hsplit, rfl⟩, hp⟩

namespace IsLongestPrefix

variable {limit : Nat} {s t e e' : String}

/-- There is one longest prefix. -/
theorem unique (h : IsLongestPrefix limit s e) (h' : IsLongestPrefix limit s e') : e = e' := by
  rcases h.isPrefix with ⟨rest, hs⟩
  rcases h'.isPrefix with ⟨rest', hs'⟩
  have hsize : (encode e).length = (encode e').length := by
    rw [length_encode, length_encode]
    exact Nat.le_antisymm (h'.longest e rest hs h.fits) (h.longest e' rest' hs' h'.fits)
  have hbytes : encode e ++ encode rest = encode e' ++ encode rest' := by
    rw [← encode_append, ← encode_append, ← hs, ← hs']
  rw [← fromUtf8Lossy_encode e, ← fromUtf8Lossy_encode e', (List.append_inj hbytes hsize).1]

/-- What is cut off begins with a character that does not fit. -/
theorem lt_of_rest {rest : String} (h : IsLongestPrefix limit (e ++ rest) e) (hrest : rest ≠ "") :
    limit < e.utf8ByteSize + 4 := by
  by_contra hroom
  cases hchars : rest.toList with
  | nil => exact hrest (String.toList_eq_nil_iff.mp hchars)
  | cons c cs =>
      have hsplit : rest = String.singleton c ++ String.ofList cs := by
        rw [← String.toList_inj, hchars, String.toList_append, String.toList_ofList,
          String.toList_singleton]
        rfl
      have hsize := String.utf8ByteSize_singleton (c := c)
      have hle := c.utf8Size_le_four
      have hpos := c.utf8Size_pos
      have hlonger := h.longest (e ++ String.singleton c) (String.ofList cs)
        (by rw [hsplit, String.append_assoc]) (by rw [String.utf8ByteSize_append]; omega)
      rw [String.utf8ByteSize_append] at hlonger
      omega

/-- What lies beyond the limit does not matter. -/
theorem of_append {p q q' : String} (h : IsLongestPrefix limit (p ++ q) e)
    (hp : limit ≤ p.utf8ByteSize) : IsLongestPrefix limit (p ++ q') e := by
  rcases h.isPrefix with ⟨rest, hs⟩
  rcases exists_append_of_le hs.symm (Nat.le_trans h.fits hp) with ⟨a, rfl⟩
  refine ⟨⟨a ++ q', String.append_assoc ..⟩, h.fits, ?_⟩
  intro p' r hsplit hfits
  rcases exists_append_of_le hsplit.symm (Nat.le_trans hfits hp) with ⟨b, hb⟩
  exact h.longest p' (b ++ q) (by rw [hb, String.append_assoc]) hfits

end IsLongestPrefix

end Utf8
