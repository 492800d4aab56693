import Mathlib.Data.List.Lex
import Mathlib.Tactic.Common

/-!
# UUIDs as text

A UUID is sixteen bytes; its text is the hyphenated lower-case hexadecimal form.

Main results:

- Theorem `hyphenated_inj`: the text determines the UUID.
- Theorem `mem_hyphenated`: the text is made of lower-case hexadecimal digits and
  hyphens.
- Theorem `ofHyphenated_hyphenated`: the text is read back.
-/

/-- A universally unique identifier. -/
structure Uuid where
  bytes : List UInt8
  length_bytes : bytes.length = 16
deriving DecidableEq, Repr

namespace Uuid

/-- The bytes as numbers. -/
def byteValues (u : Uuid) : List Nat :=
  u.bytes.map UInt8.toNat

theorem byteValues_injective : Function.Injective byteValues := by
  intro u v h
  have hbytes : u.bytes = v.bytes := List.map_injective_iff.mpr (fun _ _ => UInt8.toNat_inj.mp) h
  cases u
  cases v
  simpa using hbytes

/-- UUIDs are ordered byte by byte. -/
instance : LinearOrder Uuid :=
  LinearOrder.lift' byteValues byteValues_injective

/-- `Uuid::nil`: all bytes zero. -/
def nil : Uuid :=
  ⟨List.replicate 16 0, rfl⟩

/-- All bytes one. -/
def ones : Uuid :=
  ⟨List.replicate 16 1, rfl⟩

/-- The two lower-case hexadecimal digits of a byte. -/
def hexByte (b : UInt8) : List Char :=
  [Nat.digitChar (b.toNat / 16), Nat.digitChar (b.toNat % 16)]

/-- The digits of some bytes. -/
def hex (bytes : List UInt8) : List Char :=
  bytes.flatMap hexByte

/-- The characters of the hyphenated form: groups of 4, 2, 2, 2 and 6 bytes. -/
def hyphenatedChars (u : Uuid) : List Char :=
  hex (u.bytes.take 4) ++ '-' :: (hex ((u.bytes.drop 4).take 2) ++
    '-' :: (hex ((u.bytes.drop 6).take 2) ++ '-' :: (hex ((u.bytes.drop 8).take 2) ++
      '-' :: hex (u.bytes.drop 10))))

/-- `Display`: the hyphenated form. -/
def hyphenated (u : Uuid) : String :=
  String.ofList u.hyphenatedChars

/-! ## Digits -/

/-- The digits `Display` uses. -/
def IsHexDigit (c : Char) : Prop :=
  ∃ n < 16, c = Nat.digitChar n

theorem isHexDigit_of_mem_hex {bytes : List UInt8} {c : Char} (h : c ∈ hex bytes) :
    IsHexDigit c := by
  rcases List.mem_flatMap.mp h with ⟨b, -, hb⟩
  have hlt : b.toNat < 256 := b.toNat_lt
  simp only [hexByte, List.mem_cons, List.not_mem_nil, or_false] at hb
  rcases hb with hhi | hlo
  · exact ⟨b.toNat / 16, by omega, hhi⟩
  · exact ⟨b.toNat % 16, by omega, hlo⟩

/-- A hexadecimal digit is a letter or a digit. -/
theorem IsHexDigit.isAlphanum {c : Char} (h : IsHexDigit c) : c.isAlphanum = true := by
  rcases h with ⟨n, hn, rfl⟩
  have hall : ∀ n < 16, (Nat.digitChar n).isAlphanum = true := by decide
  exact hall n hn

theorem IsHexDigit.ne_hyphen {c : Char} (h : IsHexDigit c) : c ≠ '-' := by
  intro heq
  have halpha := h.isAlphanum
  rw [heq] at halpha
  exact absurd halpha (by decide)

/-- The text holds only hexadecimal digits and hyphens. -/
theorem mem_hyphenated {u : Uuid} {c : Char} (h : c ∈ u.hyphenated.toList) :
    IsHexDigit c ∨ c = '-' := by
  simp only [hyphenated, hyphenatedChars, String.toList_ofList, List.mem_append,
    List.mem_cons] at h
  rcases h with h | h | h | h | h | h | h | h | h
  · exact Or.inl (isHexDigit_of_mem_hex h)
  · exact Or.inr h
  · exact Or.inl (isHexDigit_of_mem_hex h)
  · exact Or.inr h
  · exact Or.inl (isHexDigit_of_mem_hex h)
  · exact Or.inr h
  · exact Or.inl (isHexDigit_of_mem_hex h)
  · exact Or.inr h
  · exact Or.inl (isHexDigit_of_mem_hex h)

theorem notMem_hyphenated {u : Uuid} {c : Char} (hc : c.isAlphanum = false) (hne : c ≠ '-') :
    c ∉ u.hyphenated.toList := by
  intro hmem
  rcases mem_hyphenated hmem with hhex | hdash
  · rw [hhex.isAlphanum] at hc
    contradiction
  · exact hne hdash

/-- The text has 36 characters. -/
theorem length_hyphenated (u : Uuid) : u.hyphenated.toList.length = 36 := by
  have hex_length : ∀ bytes : List UInt8, (hex bytes).length = 2 * bytes.length := by
    intro bytes
    induction bytes with
    | nil => rfl
    | cons b bytes ih =>
        simp only [hex, List.flatMap_cons, List.length_append, hexByte, List.length_cons,
          List.length_nil] at ih ⊢
        omega
  simp [hyphenated, hyphenatedChars, hex_length, u.length_bytes]

/-! ## Injectivity -/

theorem digitChar_inj {m n : Nat} (hm : m < 16) (hn : n < 16)
    (h : Nat.digitChar m = Nat.digitChar n) : m = n := by
  have hall : ∀ m < 16, ∀ n < 16, Nat.digitChar m = Nat.digitChar n → m = n := by decide
  exact hall m hm n hn h

theorem hexByte_inj {a b : UInt8} (h : hexByte a = hexByte b) : a = b := by
  have ha : a.toNat < 256 := a.toNat_lt
  have hb : b.toNat < 256 := b.toNat_lt
  simp only [hexByte, List.cons.injEq, and_true] at h
  have hhi := digitChar_inj (by omega) (by omega) h.1
  have hlo := digitChar_inj (by omega) (by omega) h.2
  apply UInt8.toNat.inj
  omega

/-- The digits determine the bytes. -/
theorem hex_inj {as bs : List UInt8} (h : hex as = hex bs) : as = bs := by
  induction as generalizing bs with
  | nil =>
      cases bs with
      | nil => rfl
      | cons b bs => simp [hex, hexByte] at h
  | cons a as ih =>
      cases bs with
      | nil => simp [hex, hexByte] at h
      | cons b bs =>
          have happ : hexByte a ++ hex as = hexByte b ++ hex bs := h
          rcases List.append_inj happ rfl with ⟨hhead, htail⟩
          rw [hexByte_inj hhead, ih htail]

/-- Dropping the hyphens from the text leaves the digits of all bytes. -/
theorem filter_hyphenatedChars (u : Uuid) :
    u.hyphenatedChars.filter (· ≠ '-') = hex u.bytes := by
  have hkeep : ∀ bytes : List UInt8, (hex bytes).filter (· ≠ '-') = hex bytes := by
    intro bytes
    rw [List.filter_eq_self]
    intro c hc
    simpa using (isHexDigit_of_mem_hex hc).ne_hyphen
  have hsplit : u.bytes = u.bytes.take 4 ++ ((u.bytes.drop 4).take 2 ++ ((u.bytes.drop 6).take 2 ++
      ((u.bytes.drop 8).take 2 ++ u.bytes.drop 10))) := by
    have hdrop : ∀ n, u.bytes.drop n = (u.bytes.drop n).take 2 ++ u.bytes.drop (n + 2) := by
      intro n
      rw [← List.drop_drop, List.take_append_drop]
    rw [← hdrop 8, ← hdrop 6, ← hdrop 4, List.take_append_drop]
  have hhyphen : decide ('-' ≠ '-') = false := by decide
  simp only [hyphenatedChars, List.filter_append, List.filter_cons, hkeep, hhyphen,
    Bool.false_eq_true, if_false]
  conv_rhs => rw [hsplit]
  simp only [hex, List.flatMap_append]

/-- The text determines the UUID. -/
theorem hyphenated_inj {u v : Uuid} : u.hyphenated = v.hyphenated ↔ u = v := by
  constructor
  · intro h
    have hchars : u.hyphenatedChars = v.hyphenatedChars := by
      simpa [hyphenated] using congrArg String.toList h
    have hbytes : hex u.bytes = hex v.bytes := by
      rw [← filter_hyphenatedChars, ← filter_hyphenatedChars, hchars]
    cases u
    cases v
    simp only [Uuid.mk.injEq]
    exact hex_inj hbytes
  · intro h
    rw [h]

/-! ## Reading the text -/

/-- The value of a lower-case hexadecimal digit. -/
def hexValue (c : Char) : Nat :=
  if c.isDigit then c.toNat - '0'.toNat else c.toNat - 'a'.toNat + 10

/-- The bytes some digits spell. -/
def ofHex : List Char → List UInt8
  | hi :: lo :: cs => UInt8.ofNat (16 * hexValue hi + hexValue lo) :: ofHex cs
  | _ => []

theorem hexValue_digitChar {n : Nat} (h : n < 16) : hexValue (Nat.digitChar n) = n := by
  have hall : ∀ n < 16, hexValue (Nat.digitChar n) = n := by decide
  exact hall n h

/-- The digits of some bytes spell them. -/
theorem ofHex_hex (bytes : List UInt8) : ofHex (hex bytes) = bytes := by
  induction bytes with
  | nil => rfl
  | cons b bytes ih =>
      have hlt : b.toNat < 256 := b.toNat_lt
      have hcons : ofHex (hex (b :: bytes)) =
          UInt8.ofNat (16 * hexValue (Nat.digitChar (b.toNat / 16)) +
            hexValue (Nat.digitChar (b.toNat % 16))) :: ofHex (hex bytes) := rfl
      rw [hcons, ih, hexValue_digitChar (by omega), hexValue_digitChar (by omega),
        Nat.div_add_mod, UInt8.ofNat_toNat]

/-- The UUID with this hyphenated lower-case form. -/
def ofHyphenated (text : String) : Option Uuid :=
  if h : (ofHex (text.toList.filter (· ≠ '-'))).length = 16 then
    if hyphenated ⟨_, h⟩ = text then some ⟨_, h⟩ else none
  else none

/-- The text of a UUID is read back. -/
theorem ofHyphenated_hyphenated (u : Uuid) : ofHyphenated u.hyphenated = some u := by
  have hbytes : ofHex (u.hyphenated.toList.filter (· ≠ '-')) = u.bytes := by
    rw [hyphenated, String.toList_ofList, filter_hyphenatedChars, ofHex_hex]
  have hself : (⟨u.bytes, u.length_bytes⟩ : Uuid) = u := rfl
  unfold ofHyphenated
  rw [dif_pos (by rw [hbytes, u.length_bytes])]
  simp only [hbytes, hself, if_true]

end Uuid
