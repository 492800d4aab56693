import MemoryHub.Lib.Decimal
import MemoryHub.Memory.Path

/-!
# Names of summary files

Summaries are named `YYYY-MM-DD-N.md`.  The greatest name, by date and then by number, is
the current one; the next summary goes there while the file is below the size cap, and
into a new file from then on.

Main results:

- Theorem `isSummaryName_candidateName`, `IsSummaryName.isSegment`: the next summary's name is a
  single segment.
- Theorem `not_isRawKey_summaryPath`: a summary never goes to a raw path.
-/

namespace MemoryHub
namespace Memory

/-- A calendar date. -/
structure NaiveDate where
  year : Int
  month : Nat
  day : Nat
  month_range : 1 ≤ month ∧ month ≤ 12
  day_range : 1 ≤ day ∧ day ≤ 31
deriving DecidableEq, Repr

def may19 : NaiveDate :=
  ⟨2026, 5, 19, by decide, by decide⟩

def may20 : NaiveDate :=
  ⟨2026, 5, 20, may19.month_range, by decide⟩

/-- `%Y`: four digits, with a sign outside of 0 to 9999. -/
def formatYear (year : Int) : String :=
  if 0 ≤ year ∧ year ≤ 9999 then Decimal.padded 4 year.natAbs
  else (if year < 0 then "-" else "+") ++ Decimal.padded 4 year.natAbs

/-- `date.format("%Y-%m-%d")`. -/
def NaiveDate.format (date : NaiveDate) : String :=
  formatYear date.year ++ "-" ++ Decimal.padded 2 date.month ++ "-" ++ Decimal.padded 2 date.day

/-- The largest `u32`. -/
def u32Max : Nat :=
  2 ^ 32 - 1

/-- A piece of the date: so many bytes, all digits. -/
def isDateDigits (len : Nat) (piece : String) : Bool :=
  piece.utf8ByteSize = len && piece.toList.all Char.isDigit

/-- Parses `YYYY-MM-DD-N.md` into its date and number; nothing for any other name. -/
def parseFilename (name : String) : Option (String × Nat) :=
  match RustStr.stripSuffix name ".md" with
  | none => none
  | some stem =>
      match RustStr.splitn 4 '-' stem with
      | [y, m, d, n] =>
          if !isDateDigits 4 y then none
          else if !isDateDigits 2 m then none
          else if !isDateDigits 2 d then none
          else if n = "" || !n.toList.all Char.isDigit then none
          else
            (Decimal.parseBelow (u32Max + 1) n).map fun suffix =>
              (y ++ "-" ++ m ++ "-" ++ d, suffix)
      | _ => none

/-- The name after the current one: the next number of today, or today's first. -/
def nextFilename (current today : String) : String :=
  match parseFilename current with
  | none => today ++ "-01.md"
  | some (date, suffix) =>
      if date ≠ today then today ++ "-01.md"
      else today ++ "-" ++ Decimal.padded 2 (min (suffix + 1) u32Max) ++ ".md"

/-- Keys are ordered by date, then by number. -/
def keyLe (a b : String × Nat) : Bool :=
  a.1 < b.1 || (a.1 = b.1 && a.2 ≤ b.2)

/-- One turn of the loop over a folder: a name with a greater key than the best so far
takes its place.  Names that are not UTF-8 or not of a summary are passed over. -/
def keepLater (best : Option (String × (String × Nat))) (name : Option String) :
    Option (String × (String × Nat)) :=
  match name with
  | none => best
  | some name =>
      match parseFilename name with
      | none => best
      | some key =>
          match best with
          | none => some (name, key)
          | some (_, k) => if keyLe key k then best else some (name, key)

/-- The current name among those a folder lists. -/
def latestName (names : List (Option String)) : Option String :=
  (names.foldl keepLater none).map Prod.fst

/-- The name the next summary gets, given the current one and its size. -/
def candidateName (latest : Option (String × Nat)) (today : String) (maxSize : Nat) : String :=
  match latest with
  | some (name, size) => if size < maxSize then name else nextFilename name today
  | none => today ++ "-01.md"

/-- `format!("\x7b\x7d/\x7b\x7d", folder_rel, name)`. -/
def summaryPath (target : SynthesisTarget) (name : String) : String :=
  synthesisFolder target ++ "/" ++ name

/-! ## Names are single segments -/

/-- The characters a summary's name is made of. -/
def summaryChar (c : Char) : Bool :=
  c.isDigit || ['+', '-', '.', 'm', 'd'].contains c

/-- Made of such characters. -/
def IsPlain (s : String) : Prop :=
  s.toList.all summaryChar = true

instance (s : String) : Decidable (IsPlain s) :=
  inferInstanceAs (Decidable (s.toList.all summaryChar = true))

theorem IsPlain.notMem {s : String} (h : IsPlain s) {c : Char} (hc : summaryChar c = false) :
    c ∉ s.toList := by
  intro hmem
  rw [List.all_eq_true.mp h c hmem] at hc
  contradiction

theorem isPlain_append {s t : String} : IsPlain (s ++ t) ↔ IsPlain s ∧ IsPlain t := by
  rw [IsPlain, String.toList_append, List.all_append, Bool.and_eq_true, IsPlain, IsPlain]

theorem isPlain_of_digits {piece : String} (h : piece.toList.all Char.isDigit = true) :
    IsPlain piece := by
  rw [IsPlain, List.all_eq_true]
  intro c hc
  rw [summaryChar, List.all_eq_true.mp h c hc, Bool.true_or]

theorem isPlain_padded (width n : Nat) : IsPlain (Decimal.padded width n) :=
  isPlain_of_digits (Decimal.all_isDigit_padded width n)

theorem isPlain_format (date : NaiveDate) : IsPlain date.format := by
  have hyear : IsPlain (formatYear date.year) := by
    unfold formatYear
    split
    · exact isPlain_padded _ _
    · refine isPlain_append.mpr ⟨?_, isPlain_padded _ _⟩
      split <;> decide
  simp only [NaiveDate.format, isPlain_append]
  exact ⟨⟨⟨⟨hyear, by decide⟩, isPlain_padded _ _⟩, by decide⟩, isPlain_padded _ _⟩

/-- What a summary can be called. -/
structure IsSummaryName (name : String) : Prop where
  plain : IsPlain name
  extension : ∃ stem, name = stem ++ ".md"

theorem IsSummaryName.no_slash {name : String} (h : IsSummaryName name) : '/' ∉ name.toList :=
  h.plain.notMem (by decide)

/-- A summary's name is a single segment. -/
theorem IsSummaryName.isSegment {name : String} (h : IsSummaryName name) :
    UnixPath.IsSegment name := by
  rcases h.extension with ⟨stem, hname⟩
  refine ⟨UnixPath.isName_of_length ?_, h.no_slash, h.plain.notMem (by decide)⟩
  rw [hname, String.toList_append, List.length_append]
  exact Nat.le_add_left 3 _

theorem isSummaryName_first {today : String} (htoday : IsPlain today) :
    IsSummaryName (today ++ "-01.md") := by
  refine ⟨isPlain_append.mpr ⟨htoday, by decide⟩, today ++ "-01", ?_⟩
  rw [String.append_assoc]
  rfl

theorem isSummaryName_nextFilename (current : String) {today : String} (htoday : IsPlain today) :
    IsSummaryName (nextFilename current today) := by
  unfold nextFilename
  split
  · exact isSummaryName_first htoday
  · split
    · exact isSummaryName_first htoday
    · refine ⟨?_, _, rfl⟩
      simp only [isPlain_append]
      exact ⟨⟨⟨htoday, by decide⟩, isPlain_padded _ _⟩, by decide⟩

/-- What a name that parses is made of. -/
theorem parseFilename_eq_some {name : String} {key : String × Nat}
    (h : parseFilename name = some key) :
    ∃ y m d n, isDateDigits 4 y = true ∧ isDateDigits 2 m = true ∧ isDateDigits 2 d = true ∧
      n.toList.all Char.isDigit = true ∧ key.1 = y ++ "-" ++ m ++ "-" ++ d ∧
        key.2 ≤ u32Max ∧ name = key.1 ++ "-" ++ n ++ ".md" := by
  unfold parseFilename at h
  cases hstem : RustStr.stripSuffix name ".md" with
  | none => simp [hstem] at h
  | some stem =>
      simp only [hstem] at h
      split at h
      · rename_i y m d n hpieces
        split at h <;> rename_i hy
        · exact absurd h (by simp)
        · split at h <;> rename_i hm
          · exact absurd h (by simp)
          · split at h <;> rename_i hd
            · exact absurd h (by simp)
            · split at h <;> rename_i hn
              · exact absurd h (by simp)
              · rcases Option.map_eq_some_iff.mp h with ⟨suffix, hsuffix, rfl⟩
                simp only [Bool.not_eq_true', Bool.not_eq_false, Bool.or_eq_true, not_or]
                  at hy hm hd hn
                refine ⟨y, m, d, n, hy, hm, hd, hn.2, rfl, ?_, ?_⟩
                · unfold Decimal.parseBelow at hsuffix
                  simp only at hsuffix
                  split at hsuffix <;> rename_i hvalue
                  · have hlt := hvalue.2.2
                    rw [Option.some.inj hsuffix] at hlt
                    exact Nat.le_of_lt_succ hlt
                  · exact absurd hsuffix (by simp)
                · have hlists : RustStr.splitnChars '-' 4 stem.toList =
                      [y.toList, m.toList, d.toList, n.toList] := by
                    have hmapped := congrArg (List.map String.toList) hpieces
                    simpa [RustStr.splitn, Function.comp_def] using hmapped
                  have hjoin := RustStr.splitnChars_join '-' 3 stem.toList
                  rw [hlists] at hjoin
                  rw [RustStr.stripSuffix_eq_some.mp hstem, String.append_left_inj,
                    ← String.toList_inj, ← hjoin]
                  simp [List.intercalate]
      · exact absurd h (by simp)

theorem isPlain_of_dateDigits {len : Nat} {piece : String} (h : isDateDigits len piece = true) :
    IsPlain piece := by
  rw [isDateDigits, Bool.and_eq_true] at h
  exact isPlain_of_digits h.2

/-- The name of a summary is made of digits, hyphens and its ending. -/
theorem isSummaryName_of_parseFilename {name : String} {key : String × Nat}
    (h : parseFilename name = some key) : IsSummaryName name := by
  rcases parseFilename_eq_some h with ⟨y, m, d, n, hy, hm, hd, hn, hdate, -, hname⟩
  refine ⟨?_, _, hname⟩
  rw [hname, hdate]
  simp only [isPlain_append]
  exact ⟨⟨⟨⟨⟨⟨⟨isPlain_of_dateDigits hy, by decide⟩, isPlain_of_dateDigits hm⟩, by decide⟩,
    isPlain_of_dateDigits hd⟩, by decide⟩, isPlain_of_digits hn⟩, by decide⟩

/-- The loop over a folder keeps a name that parses. -/
theorem keepLater_parses {best : Option (String × (String × Nat))} {name : Option String}
    (hbest : ∀ b, best = some b → parseFilename b.1 = some b.2) {b : String × (String × Nat)}
    (h : keepLater best name = some b) : parseFilename b.1 = some b.2 := by
  unfold keepLater at h
  cases name with
  | none => exact hbest b h
  | some name =>
      cases hkey : parseFilename name with
      | none =>
          simp only [hkey] at h
          exact hbest b h
      | some key =>
          simp only [hkey] at h
          cases best with
          | none =>
              cases h
              exact hkey
          | some old =>
              simp only at h
              split at h
              · exact hbest b h
              · cases h
                exact hkey

theorem foldl_keepLater_parses (names : List (Option String))
    {best : Option (String × (String × Nat))}
    (hbest : ∀ b, best = some b → parseFilename b.1 = some b.2) {b : String × (String × Nat)}
    (h : names.foldl keepLater best = some b) : parseFilename b.1 = some b.2 := by
  induction names generalizing best with
  | nil => exact hbest b h
  | cons name names ih =>
      refine ih ?_ h
      intro b' hb'
      exact keepLater_parses hbest hb'

/-- The current name of a folder is that of a summary. -/
theorem exists_parse_of_latestName {names : List (Option String)} {name : String}
    (h : latestName names = some name) : ∃ key, parseFilename name = some key := by
  rcases Option.map_eq_some_iff.mp h with ⟨b, hb, rfl⟩
  exact ⟨b.2, foldl_keepLater_parses names (by simp) hb⟩

theorem isSummaryName_latestName {names : List (Option String)} {name : String}
    (h : latestName names = some name) : IsSummaryName name := by
  rcases exists_parse_of_latestName h with ⟨key, hkey⟩
  exact isSummaryName_of_parseFilename hkey

theorem isSummaryName_candidateName {latest : Option (String × Nat)}
    (hlatest : ∀ file, latest = some file → IsSummaryName file.1) {today : String}
    (htoday : IsPlain today) (maxSize : Nat) :
    IsSummaryName (candidateName latest today maxSize) := by
  unfold candidateName
  split
  · split
    · exact hlatest _ rfl
    · exact isSummaryName_nextFilename _ htoday
  · exact isSummaryName_first htoday

/-- A summary never goes to a raw path. -/
theorem not_isRawKey_summaryPath (target : SynthesisTarget) {name : String}
    (hname : '/' ∉ name.toList) : ¬ IsRawKey (summaryPath target name) := by
  intro hraw
  exact hraw.ne_summary hname target rfl

end Memory
end MemoryHub
