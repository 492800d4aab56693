import MemoryHub.Lib.ListTrim
import Mathlib.Data.List.TakeWhile

/-!
# String slices

The `str` methods the program calls, with the behaviour the Rust standard
library documents for them, over Lean's `String` through its list of characters.

Main results:

- Theorem `toNat_toLower`: what lower-casing an ASCII letter does.
- Theorem `stripSuffix_eq_some`: a stripped suffix is exactly the end of the string.
- Theorem `splitnChars_join`: joining the pieces of a split gives the string back.
- Theorem `splitNewline_intercalate`: splitting joined lines gives the lines back.
-/

namespace RustStr

/-! ## Trimming -/

/-- `char::is_whitespace`: the Unicode `White_Space` property. -/
def isWhitespace (c : Char) : Bool :=
  (0x09 ≤ c.toNat && c.toNat ≤ 0x0D) || c.toNat == 0x20 || c.toNat == 0x85 ||
    c.toNat == 0xA0 || c.toNat == 0x1680 || (0x2000 ≤ c.toNat && c.toNat ≤ 0x200A) ||
    c.toNat == 0x2028 || c.toNat == 0x2029 || c.toNat == 0x202F || c.toNat == 0x205F ||
    c.toNat == 0x3000

/-- `str::trim`: drop leading and trailing white space. -/
def trim (s : String) : String :=
  String.ofList ((s.toList.dropWhile isWhitespace).rdropWhile isWhitespace)

/-- Nothing is trimmed from a string without white space. -/
theorem trim_eq_self {s : String} (h : ∀ c ∈ s.toList, isWhitespace c = false) : trim s = s := by
  have hfront : s.toList.dropWhile isWhitespace = s.toList := by
    rw [List.dropWhile_eq_self_iff]
    intro hpos
    rw [h _ (List.getElem_mem hpos)]
    simp
  have hback : s.toList.rdropWhile isWhitespace = s.toList := by
    rw [List.rdropWhile_eq_self_iff]
    intro hne
    rw [h _ (List.getLast_mem hne)]
    simp
  rw [trim, hfront, hback, String.ofList_toList]

theorem toList_trim (s : String) :
    (trim s).toList = ListTrim.trimWhile isWhitespace s.toList := by
  rw [trim, String.toList_ofList]
  rfl

/-- A string trims to nothing exactly if it is all white space. -/
theorem trim_eq_empty_iff {s : String} :
    trim s = "" ↔ ∀ c ∈ s.toList, isWhitespace c = true := by
  rw [← String.toList_inj, toList_trim, String.toList_empty, ListTrim.trimWhile_eq_nil_iff]

/-! ## ASCII case -/

/-- An ASCII capital is lower-cased to the letter 32 places on; nothing else changes. -/
theorem toNat_toLower (c : Char) :
    c.toLower.toNat = if 65 ≤ c.toNat ∧ c.toNat ≤ 90 then c.toNat + 32 else c.toNat := by
  unfold Char.toLower
  by_cases hupper : 65 ≤ c.toNat ∧ c.toNat ≤ 90
  · have hval : c.val ≥ 'A'.val ∧ c.val ≤ 'Z'.val := hupper
    rw [dif_pos hval, if_pos hupper]
    change (c.val + 32).toNat = c.toNat + 32
    rw [UInt32.toNat_add]
    have hc : c.val.toNat = c.toNat := rfl
    have h32 : (32 : UInt32).toNat = 32 := rfl
    omega
  · have hval : ¬ (c.val ≥ 'A'.val ∧ c.val ≤ 'Z'.val) := hupper
    rw [dif_neg hval, if_neg hupper]

theorem isUpper_iff {c : Char} : c.isUpper = true ↔ 65 ≤ c.toNat ∧ c.toNat ≤ 90 := by
  change decide (c.val ≥ 'A'.val ∧ c.val ≤ 'Z'.val) = true ↔ _
  rw [decide_eq_true_eq]
  exact Iff.rfl

theorem isLower_iff {c : Char} : c.isLower = true ↔ 97 ≤ c.toNat ∧ c.toNat ≤ 122 := by
  change (decide (c.val ≥ 'a'.val) && decide (c.val ≤ 'z'.val)) = true ↔ _
  rw [Bool.and_eq_true, decide_eq_true_eq, decide_eq_true_eq]
  exact Iff.rfl

theorem toLower_toLower (c : Char) : c.toLower.toLower = c.toLower := by
  rw [← Char.toNat_inj, toNat_toLower, toNat_toLower]
  split_ifs <;> omega

/-- White space has no case. -/
theorem isWhitespace_toLower (c : Char) : isWhitespace c.toLower = isWhitespace c := by
  rw [Bool.eq_iff_iff]
  simp only [isWhitespace, toNat_toLower, Bool.or_eq_true, Bool.and_eq_true, decide_eq_true_eq,
    beq_iff_eq]
  split <;> omega

/-! ## Prefixes -/

/-- `str::strip_prefix`: the rest of the string after `pre`, if it starts so. -/
def stripPrefix (s pre : String) : Option String :=
  if pre.toList.isPrefixOf s.toList then
    some (String.ofList (s.toList.drop pre.toList.length))
  else none

theorem stripPrefix_eq_some {s pre rest : String} :
    stripPrefix s pre = some rest ↔ s = pre ++ rest := by
  unfold stripPrefix
  split <;> rename_i h
  · rcases List.isPrefixOf_iff_prefix.mp h with ⟨t, ht⟩
    have hdrop : s.toList.drop pre.toList.length = t := by
      rw [← ht, List.drop_left]
    rw [Option.some_inj, hdrop, ← String.toList_inj, ← String.toList_inj, String.toList_append,
      String.toList_ofList, ← ht, List.append_right_inj, eq_comm]
  · simp only [reduceCtorEq, false_iff]
    intro heq
    exact h (List.isPrefixOf_iff_prefix.mpr ⟨rest.toList, by rw [heq, String.toList_append]⟩)

/-- `str::strip_suffix`: the string without `suf` at its end, if it ends so. -/
def stripSuffix (s suf : String) : Option String :=
  if suf.toList.isSuffixOf s.toList then
    some (String.ofList (s.toList.take (s.toList.length - suf.toList.length)))
  else none

theorem stripSuffix_eq_some {s suf stem : String} :
    stripSuffix s suf = some stem ↔ s = stem ++ suf := by
  unfold stripSuffix
  split <;> rename_i h
  · rcases List.isSuffixOf_iff_suffix.mp h with ⟨t, ht⟩
    have htake : s.toList.take (s.toList.length - suf.toList.length) = t := by
      rw [← ht, List.length_append, Nat.add_sub_cancel, List.take_left]
    rw [Option.some_inj, htake, ← String.toList_inj, ← String.toList_inj, String.toList_append,
      String.toList_ofList, ← ht, List.append_left_inj, eq_comm]
  · simp only [reduceCtorEq, false_iff]
    intro heq
    exact h (List.isSuffixOf_iff_suffix.mpr ⟨stem.toList, by rw [heq, String.toList_append]⟩)

/-! ## Splitting -/

/-- The pieces of `splitn`: all but the last end before a separator. -/
def splitnChars (sep : Char) : Nat → List Char → List (List Char)
  | 0, _ => []
  | 1, cs => [cs]
  | n + 2, cs =>
      match cs.dropWhile (· ≠ sep) with
      | [] => [cs]
      | _ :: rest => cs.takeWhile (· ≠ sep) :: splitnChars sep (n + 1) rest

/-- `str::splitn`: at most `n` pieces, the last one with all that remains. -/
def splitn (n : Nat) (sep : Char) (s : String) : List String :=
  (splitnChars sep n s.toList).map String.ofList

theorem eq_of_dropWhile_ne {sep d : Char} {cs rest : List Char}
    (h : cs.dropWhile (· ≠ sep) = d :: rest) : d = sep := by
  induction cs with
  | nil => simp at h
  | cons c cs ih =>
      rw [List.dropWhile_cons] at h
      split at h <;> rename_i hc
      · exact ih h
      · rw [← (List.cons.inj h).1]
        simpa using hc

/-- A first piece without the separator is split off at the first separator. -/
theorem splitnChars_cons {sep : Char} {front : List Char} (h : sep ∉ front) (n : Nat)
    (rest : List Char) : splitnChars sep (n + 2) (front ++ sep :: rest) =
      front :: splitnChars sep (n + 1) rest := by
  have hfront : ∀ c ∈ front, decide (c ≠ sep) = true := by
    intro c hc
    rw [decide_eq_true_eq]
    rintro rfl
    exact h hc
  rw [splitnChars, List.dropWhile_append_of_pos hfront, List.takeWhile_append_of_pos hfront]
  simp

/-- Joining the pieces gives the string back. -/
theorem splitnChars_join (sep : Char) (n : Nat) (cs : List Char) :
    [sep].intercalate (splitnChars sep (n + 1) cs) = cs := by
  induction n generalizing cs with
  | zero => simp [splitnChars, List.intercalate]
  | succ n ih =>
      rw [splitnChars]
      cases hdrop : cs.dropWhile (· ≠ sep) with
      | nil => simp [List.intercalate]
      | cons d rest =>
          have hsplit : cs.takeWhile (· ≠ sep) ++ d :: rest = cs := by
            rw [← hdrop, List.takeWhile_append_dropWhile]
          have hd : d = sep := eq_of_dropWhile_ne hdrop
          have hne : splitnChars sep (n + 1) rest ≠ [] := by
            cases n with
            | zero => simp [splitnChars]
            | succ n =>
                rw [splitnChars]
                split <;> simp
          rw [hd] at hsplit
          rw [List.intercalate_cons_of_ne_nil hne, ih rest, List.append_assoc]
          exact hsplit

/-! ## Lines -/

/-- A line without the carriage return before its line feed. -/
def stripCr (line : List Char) : List Char :=
  if line.getLast? = some '\r' then line.dropLast else line

/-- `str::lines`: the lines without their ends; what follows the last line feed is a
line only if it is not empty. -/
def lines (s : String) : List String :=
  let parts := s.toList.splitOn '\n'
  (parts.dropLast.map fun line => String.ofList (stripCr line)) ++
    match parts.getLast? with
    | some last => if last = [] then [] else [String.ofList last]
    | none => []

/-- A piece of a split has no separator in it. -/
theorem notMem_of_mem_splitOn {sep : Char} {cs piece : List Char}
    (h : piece ∈ cs.splitOn sep) : sep ∉ piece := by
  induction cs generalizing piece with
  | nil =>
      rw [List.splitOn_nil, List.mem_singleton] at h
      rw [h]
      exact List.not_mem_nil
  | cons c cs ih =>
      rw [List.splitOn_cons_eq_if_modifyHead] at h
      split at h <;> rename_i hc
      · rcases List.mem_cons.mp h with rfl | h
        · exact List.not_mem_nil
        · exact ih h
      · rcases List.exists_cons_of_ne_nil (List.splitOn_ne_nil sep cs) with ⟨front, rest, hsplit⟩
        rw [hsplit, List.modifyHead_cons] at h
        rcases List.mem_cons.mp h with rfl | h
        · have hfront : sep ∉ front := ih (hsplit ▸ List.mem_cons_self)
          have hne : sep ≠ c := fun heq => hc (by rw [heq, beq_self_eq_true])
          exact List.not_mem_cons_of_ne_of_not_mem hne hfront
        · exact ih (hsplit ▸ List.mem_cons_of_mem _ h)

/-- Lines have no line feed. -/
theorem newline_notMem_of_mem_lines {s line : String} (h : line ∈ lines s) :
    '\n' ∉ line.toList := by
  rw [lines, List.mem_append] at h
  rcases h with h | h
  · rcases List.mem_map.mp h with ⟨part, hpart, rfl⟩
    have hfree := notMem_of_mem_splitOn ((List.dropLast_subset _) hpart)
    rw [String.toList_ofList, stripCr]
    split
    · exact fun hmem => hfree ((List.dropLast_subset _) hmem)
    · exact hfree
  · cases hlast : (s.toList.splitOn '\n').getLast? with
    | none => simp [hlast] at h
    | some last =>
        have hfree := notMem_of_mem_splitOn (List.mem_of_getLast? hlast)
        simp only [hlast] at h
        split at h
        · simp at h
        · rw [List.mem_singleton.mp h, String.toList_ofList]
          exact hfree

/-- The pieces of a split hold what is not the separator. -/
theorem forall_splitOn_iff {sep : Char} {p : Char → Prop} (hsep : p sep) (cs : List Char) :
    (∀ piece ∈ cs.splitOn sep, ∀ c ∈ piece, p c) ↔ ∀ c ∈ cs, p c := by
  induction cs with
  | nil => simp
  | cons c cs ih =>
      rw [List.splitOn_cons_eq_if_modifyHead]
      split <;> rename_i hc
      · rw [beq_iff_eq] at hc
        simp [ih, hc, hsep]
      · rcases List.exists_cons_of_ne_nil (List.splitOn_ne_nil sep cs) with ⟨front, rest, hsplit⟩
        rw [hsplit, List.forall_mem_cons] at ih
        rw [hsplit, List.modifyHead_cons, List.forall_mem_cons, List.forall_mem_cons,
          List.forall_mem_cons, ← ih, and_assoc]

theorem forall_stripCr_iff {p : Char → Prop} (hcr : p '\r') {line : List Char} :
    (∀ c ∈ stripCr line, p c) ↔ ∀ c ∈ line, p c := by
  unfold stripCr
  split <;> rename_i hlast
  · constructor
    · intro h c hc
      rw [← List.dropLast_append_getLast? _ hlast, List.mem_append, List.mem_singleton] at hc
      rcases hc with hfront | rfl
      · exact h c hfront
      · exact hcr
    · intro h c hc
      exact h c ((List.dropLast_subset _) hc)
  · rfl

/-- Every line trims to nothing exactly if the whole string does. -/
theorem trim_lines_eq_empty_iff {s : String} :
    (∀ line ∈ lines s, trim line = "") ↔ trim s = "" := by
  have hpart : ∀ part : List Char, trim (String.ofList part) = "" ↔
      ∀ c ∈ part, isWhitespace c = true := by
    intro part
    rw [trim_eq_empty_iff, String.toList_ofList]
  have hnewline : isWhitespace '\n' = true := by decide
  have hsplit := forall_splitOn_iff (p := fun c => isWhitespace c = true) hnewline s.toList
  rw [trim_eq_empty_iff, ← hsplit]
  have hne := List.splitOn_ne_nil '\n' s.toList
  have hlast := List.getLast?_eq_getLast_of_ne_nil hne
  have hparts := List.dropLast_append_getLast? _ hlast
  unfold lines
  simp only [hlast]
  generalize s.toList.splitOn '\n' = parts at *
  generalize parts.getLast hne = last at *
  have hfront : (∀ line ∈ parts.dropLast.map fun line => String.ofList (stripCr line),
      trim line = "") ↔ ∀ part ∈ parts.dropLast, ∀ c ∈ part, isWhitespace c = true := by
    rw [List.forall_mem_map]
    refine forall_congr' fun part => forall_congr' fun _ => ?_
    rw [hpart, forall_stripCr_iff (p := fun c => isWhitespace c = true) (by decide)]
  have hback : (∀ line ∈ if last = [] then [] else [String.ofList last], trim line = "") ↔
      ∀ c ∈ last, isWhitespace c = true := by
    split <;> rename_i hempty
    · simp [hempty]
    · simp [hpart]
  rw [List.forall_mem_append, hfront, hback]
  conv_rhs => rw [← hparts]
  rw [List.forall_mem_append, List.forall_mem_singleton]

/-- Splitting at the separator gives back what was joined with it. -/
theorem map_splitOn_intercalate {sep : String} {c : Char} (hsep : sep.toList = [c])
    {parts : List String} (hne : parts ≠ []) (h : ∀ part ∈ parts, c ∉ part.toList) :
    ((String.intercalate sep parts).toList.splitOn c).map String.ofList = parts := by
  have hsplit : ([c].intercalate (parts.map String.toList)).splitOn c =
      parts.map String.toList := by
    refine List.splitOn_intercalate c ?_ (by simpa using hne)
    intro piece hpiece
    rcases List.mem_map.mp hpiece with ⟨part, hpart, rfl⟩
    exact h part hpart
  rw [String.toList_intercalate, hsep, hsplit, List.map_map]
  simp

/-- `str::split` at line feeds. -/
def splitNewline (s : String) : List String :=
  (s.toList.splitOn '\n').map String.ofList

/-- Splitting gives back the lines that were joined. -/
theorem splitNewline_intercalate {parts : List String} (hne : parts ≠ [])
    (h : ∀ part ∈ parts, '\n' ∉ part.toList) :
    splitNewline (String.intercalate "\n" parts) = parts :=
  map_splitOn_intercalate (by decide) hne h

/-! ## Debug formatting -/

/-- One character under `{:?}`: quotes, backslashes and ASCII control characters
are escaped.  (The Unicode tables that also escape some characters beyond ASCII
are not reproduced.) -/
def escapeDebug (c : Char) : List Char :=
  if c = '"' ∨ c = '\\' then ['\\', c]
  else if c = '\n' then ['\\', 'n']
  else if c = '\t' then ['\\', 't']
  else if c = '\r' then ['\\', 'r']
  else if c.toNat = 0 then ['\\', '0']
  else if c.toNat < 0x20 ∨ c.toNat = 0x7F then
    ['\\', 'u', '\x7b'] ++ Nat.toDigits 16 c.toNat ++ ['\x7d']
  else [c]

/-- `format!("\x7b:?\x7d", s)` for a string: quoted and escaped. -/
def debugStr (s : String) : String :=
  String.ofList (['"'] ++ s.toList.flatMap escapeDebug ++ ['"'])

end RustStr
