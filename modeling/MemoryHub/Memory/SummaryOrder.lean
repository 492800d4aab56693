import Mathlib.Data.Prod.Lex
import Mathlib.Data.String.Basic
import MemoryHub.Memory.SynthesisPath

/-!
# Summaries in order

Chooser and reader of summaries scan a folder for the greatest name.  Dates of four-digit
years are ordered as text as they are in the calendar, so the name of a new summary is the
greatest as long as dates and numbers grow.

Main results:

- Theorem `parseFilename_dateText`: a summary's name parses back to its date and number.
- Theorem `format_lt`: a later date has a greater text.
- Theorem `latestName_eq`: the scan finds the greatest name, in whatever order names are listed.
-/

namespace MemoryHub
namespace Memory

/-! ## Names -/

/-- `format!("\x7b\x7d-\x7b:02\x7d.md", date, suffix)`. -/
def summaryName (date : String) (suffix : Nat) : String :=
  date ++ "-" ++ Decimal.padded 2 suffix ++ ".md"

/-- The first name of a date. -/
theorem first_summaryName (date : String) : date ++ "-01.md" = summaryName date 1 := by
  have hfirst : "-01.md" = "-" ++ Decimal.padded 2 1 ++ ".md" := by decide
  rw [hfirst, summaryName, String.append_assoc, String.append_assoc, String.append_assoc]

namespace NaiveDate

/-- The year is written with four digits. -/
def FourDigits (date : NaiveDate) : Prop :=
  0 ≤ date.year ∧ date.year ≤ 9999

instance (date : NaiveDate) : Decidable date.FourDigits :=
  inferInstanceAs (Decidable (0 ≤ date.year ∧ date.year ≤ 9999))

variable {date : NaiveDate}

/-- The three numbers of the date, as they are written. -/
theorem format_eq (h : date.FourDigits) : date.format =
    Decimal.padded 4 date.year.natAbs ++ "-" ++ Decimal.padded 2 date.month ++ "-" ++
      Decimal.padded 2 date.day := by
  have hyear : formatYear date.year = Decimal.padded 4 date.year.natAbs := if_pos h
  rw [format, hyear]

theorem toList_format (h : date.FourDigits) : date.format.toList =
    (Decimal.padded 4 date.year.natAbs).toList ++ '-' ::
      ((Decimal.padded 2 date.month).toList ++ '-' :: (Decimal.padded 2 date.day).toList) := by
  have hsep : "-".toList = ['-'] := by decide
  simp only [format_eq h, String.toList_append, hsep, List.append_assoc, List.cons_append,
    List.nil_append]

theorem year_lt (h : date.FourDigits) : date.year.natAbs < 10 ^ 4 := by
  have := h.1
  have := h.2
  omega

theorem month_lt (date : NaiveDate) : date.month < 10 ^ 2 := by
  have := date.month_range.2
  omega

theorem day_lt (date : NaiveDate) : date.day < 10 ^ 2 := by
  have := date.day_range.2
  omega

end NaiveDate

/-- A text of the form `dddd-dd-dd`, each `d` a digit. -/
def IsDateText (date : String) : Prop :=
  ∃ y m d : List Char, (y.length = 4 ∧ ∀ c ∈ y, c.isDigit = true) ∧
    (m.length = 2 ∧ ∀ c ∈ m, c.isDigit = true) ∧ (d.length = 2 ∧ ∀ c ∈ d, c.isDigit = true) ∧
      date.toList = y ++ '-' :: (m ++ '-' :: d)

theorem NaiveDate.isDateText_format {date : NaiveDate} (h : date.FourDigits) :
    IsDateText date.format :=
  ⟨_, _, _, ⟨Decimal.length_padded (by decide) (year_lt h), fun _ => Decimal.isDigit_of_mem_padded⟩,
    ⟨Decimal.length_padded (by decide) date.month_lt, fun _ => Decimal.isDigit_of_mem_padded⟩,
    ⟨Decimal.length_padded (by decide) date.day_lt, fun _ => Decimal.isDigit_of_mem_padded⟩,
    toList_format h⟩

theorem hyphen_notMem_digits {cs : List Char} (h : ∀ c ∈ cs, c.isDigit = true) : '-' ∉ cs := by
  intro hmem
  exact absurd (h _ hmem) (by decide)

theorem isDateDigits_ofList {len : Nat} {cs : List Char}
    (h : cs.length = len ∧ ∀ c ∈ cs, c.isDigit = true) :
    isDateDigits len (String.ofList cs) = true := by
  rw [isDateDigits, Decimal.utf8ByteSize_digits h.2, String.toList_ofList, List.all_eq_true.mpr h.2,
    h.1]
  simp

theorem padded_ne_empty (width n : Nat) : Decimal.padded width n ≠ "" := by
  intro heq
  apply Decimal.padded_ne_nil width n
  rw [heq]
  rfl

/-- A name made of such a text and a number parses back to them. -/
theorem parseFilename_dateText {date : String} (hdate : IsDateText date) {suffix : Nat}
    (hsuffix : suffix ≤ u32Max) :
    parseFilename (summaryName date suffix) = some (date, suffix) := by
  rcases hdate with ⟨y, m, d, hy, hm, hd, hlist⟩
  have hstem : RustStr.stripSuffix (summaryName date suffix) ".md" =
      some (date ++ "-" ++ Decimal.padded 2 suffix) := RustStr.stripSuffix_eq_some.mpr rfl
  have hsep : "-".toList = ['-'] := by decide
  have hpieces : RustStr.splitn 4 '-' (date ++ "-" ++ Decimal.padded 2 suffix) =
      [String.ofList y, String.ofList m, String.ofList d, Decimal.padded 2 suffix] := by
    simp only [RustStr.splitn, String.toList_append, hlist, hsep, List.append_assoc,
      List.cons_append, List.nil_append]
    rw [RustStr.splitnChars_cons (hyphen_notMem_digits hy.2),
      RustStr.splitnChars_cons (hyphen_notMem_digits hm.2),
      RustStr.splitnChars_cons (hyphen_notMem_digits hd.2), RustStr.splitnChars]
    simp only [List.map_cons, List.map_nil, String.ofList_toList]
  have hjoin : String.ofList y ++ "-" ++ String.ofList m ++ "-" ++ String.ofList d = date := by
    rw [← String.toList_inj, hlist]
    simp [hsep]
  have hdigits := Decimal.all_isDigit_padded 2 suffix
  have hvalue : Decimal.parseBelow (u32Max + 1) (Decimal.padded 2 suffix) = some suffix :=
    Decimal.parseBelow_padded 2 (by omega)
  simp only [parseFilename, hstem, hpieces, isDateDigits_ofList hy, isDateDigits_ofList hm,
    isDateDigits_ofList hd, padded_ne_empty, hdigits, hvalue, hjoin, Bool.not_true,
    Bool.false_eq_true, if_false, decide_false, Bool.or_false, Option.map_some]

/-- A summary's name parses back to its date and number. -/
theorem parseFilename_summaryName {date : NaiveDate} (hdate : date.FourDigits) {suffix : Nat}
    (hsuffix : suffix ≤ u32Max) :
    parseFilename (summaryName date.format suffix) = some (date.format, suffix) :=
  parseFilename_dateText (NaiveDate.isDateText_format hdate) hsuffix

/-- The name after a numbered summary. -/
theorem nextFilename_eq {name : String} {key : String × Nat} (h : parseFilename name = some key)
    (today : String) : nextFilename name today =
      if key.1 = today then summaryName today (min (key.2 + 1) u32Max)
      else summaryName today 1 := by
  rcases key with ⟨date, suffix⟩
  unfold nextFilename
  simp only [h]
  by_cases hdate : date = today
  · rw [if_neg (not_not.mpr hdate), if_pos hdate, summaryName]
  · rw [if_pos hdate, if_neg hdate, first_summaryName]

/-! ## Dates -/

namespace NaiveDate

/-- The order of the calendar. -/
def Before (a b : NaiveDate) : Prop :=
  a.year < b.year ∨ (a.year = b.year ∧ (a.month < b.month ∨ (a.month = b.month ∧ a.day < b.day)))

instance (a b : NaiveDate) : Decidable (a.Before b) :=
  inferInstanceAs (Decidable (a.year < b.year ∨
    (a.year = b.year ∧ (a.month < b.month ∨ (a.month = b.month ∧ a.day < b.day)))))

theorem before_trichotomy (a b : NaiveDate) : a.Before b ∨ a = b ∨ b.Before a := by
  rcases a with ⟨ya, ma, da, hma, hda⟩
  rcases b with ⟨yb, mb, db, hmb, hdb⟩
  simp only [Before, NaiveDate.mk.injEq]
  omega

/-- A later date has a greater text. -/
theorem format_lt {a b : NaiveDate} (ha : a.FourDigits) (hb : b.FourDigits) (h : a.Before b) :
    a.format < b.format := by
  rw [String.lt_iff, toList_format ha, toList_format hb]
  rcases h with hyear | ⟨hyear, hmonth | ⟨hmonth, hday⟩⟩
  · apply Decimal.append_lt_append
    · rw [Decimal.length_padded (by decide) (year_lt ha),
        Decimal.length_padded (by decide) (year_lt hb)]
    · have hlow := ha.1
      exact Decimal.padded_lt (by decide) (by omega) (year_lt hb)
  · rw [hyear]
    apply List.append_left_lt
    rw [List.cons_lt_cons_iff]
    refine Or.inr ⟨rfl, ?_⟩
    apply Decimal.append_lt_append
    · rw [Decimal.length_padded (by decide) a.month_lt,
        Decimal.length_padded (by decide) b.month_lt]
    · exact Decimal.padded_lt (by decide) hmonth b.month_lt
  · rw [hyear, hmonth]
    apply List.append_left_lt
    rw [List.cons_lt_cons_iff]
    refine Or.inr ⟨rfl, ?_⟩
    apply List.append_left_lt
    rw [List.cons_lt_cons_iff]
    exact Or.inr ⟨rfl, Decimal.padded_lt (by decide) hday b.day_lt⟩

end NaiveDate

/-- Only a date of a four-digit year begins with a digit. -/
theorem fourDigits_of_format {date : NaiveDate} {c : Char} {rest : List Char}
    (h : date.format.toList = c :: rest) (hc : c.isDigit = true) : date.FourDigits := by
  by_contra hdate
  have hyear : formatYear date.year = (if date.year < 0 then "-" else "+") ++
      Decimal.padded 4 date.year.natAbs := if_neg hdate
  rw [NaiveDate.format, hyear] at h
  split at h <;>
  · simp only [String.toList_append, List.append_assoc] at h
    rw [← (List.cons.inj h).1] at hc
    exact absurd hc (by decide)

/-- A date a name parses to begins with a digit, and so does the name. -/
theorem exists_digit_of_parseFilename {name : String} {key : String × Nat}
    (h : parseFilename name = some key) :
    ∃ c rest, c.isDigit = true ∧ key.1.toList = c :: rest := by
  rcases parseFilename_eq_some h with ⟨y, m, d, n, hy, -, -, -, hdate, -, -⟩
  rw [isDateDigits, Bool.and_eq_true, decide_eq_true_eq] at hy
  cases hchars : y.toList with
  | nil =>
      rw [String.toList_eq_nil_iff.mp hchars] at hy
      exact absurd hy.1 (by decide)
  | cons c cs =>
      refine ⟨c, cs ++ ("-" ++ m ++ "-" ++ d).toList, ?_, ?_⟩
      · exact List.all_eq_true.mp hy.2 c (hchars ▸ List.mem_cons_self)
      · rw [hdate]
        simp only [String.toList_append, hchars, List.cons_append, List.append_assoc]

/-- A name as the program writes it parses to nothing or to its date and number. -/
theorem parseFilename_written {date : NaiveDate} {suffix : Nat} (hsuffix : suffix ≤ u32Max)
    {key : String × Nat} (h : parseFilename (summaryName date.format suffix) = some key) :
    date.FourDigits ∧ key = (date.format, suffix) := by
  have hdate : date.FourDigits := by
    rcases exists_digit_of_parseFilename h with ⟨c, rest, hc, hkey⟩
    rcases parseFilename_eq_some h with ⟨-, -, -, n, -, -, -, -, -, -, hname⟩
    have hlist := congrArg String.toList hname
    simp only [summaryName, String.toList_append, hkey, List.append_assoc, List.cons_append]
      at hlist
    -- The date and the text of the key begin with the same character.
    cases hformat : date.format.toList with
    | nil => simp [NaiveDate.format] at hformat
    | cons b cs =>
        rw [hformat, List.cons_append] at hlist
        rw [← (List.cons.inj hlist).1] at hc
        exact fourDigits_of_format hformat hc
  rw [parseFilename_summaryName hdate hsuffix] at h
  exact ⟨hdate, (Option.some.inj h).symm⟩

/-! ## The greatest name -/

theorem keyLe_iff {a b : String × Nat} : keyLe a b = true ↔ toLex a ≤ toLex b := by
  rw [Prod.Lex.toLex_le_toLex, keyLe, Bool.or_eq_true, Bool.and_eq_true, decide_eq_true_eq,
    decide_eq_true_eq, decide_eq_true_eq]

/-- One turn of the scan passes a name over, or takes the greater of it and the best so
far. -/
theorem keepLater_cases (sofar : Option (String × (String × Nat))) (name : Option String) :
    (keepLater sofar name = sofar ∧ ∀ n k, name = some n → parseFilename n = some k →
        ∃ b, sofar = some b ∧ toLex k ≤ toLex b.2) ∨
      ∃ n k, name = some n ∧ parseFilename n = some k ∧ keepLater sofar name = some (n, k) ∧
        ∀ b, sofar = some b → toLex b.2 ≤ toLex k := by
  cases name with
  | none => exact Or.inl ⟨rfl, by simp⟩
  | some n =>
      cases hkey : parseFilename n with
      | none =>
          refine Or.inl ⟨by simp [keepLater, hkey], ?_⟩
          intro n' k' hn' hk'
          rw [← Option.some.inj hn', hkey] at hk'
          contradiction
      | some k =>
          cases sofar with
          | none => exact Or.inr ⟨n, k, rfl, hkey, by simp [keepLater, hkey], by simp⟩
          | some b =>
              by_cases hle : keyLe k b.2 = true
              · refine Or.inl ⟨by simp [keepLater, hkey, hle], ?_⟩
                intro n' k' hn' hk'
                rw [← Option.some.inj hn', hkey] at hk'
                exact ⟨b, rfl, Option.some.inj hk' ▸ keyLe_iff.mp hle⟩
              · refine Or.inr ⟨n, k, rfl, hkey, by simp [keepLater, hkey, hle], ?_⟩
                intro b' hb'
                rw [← Option.some.inj hb']
                exact Std.le_of_not_ge fun h => hle (keyLe_iff.mpr h)

/-- The scan finds nothing only if there is nothing to find. -/
theorem foldl_keepLater_eq_none {names : List (Option String)}
    {sofar : Option (String × (String × Nat))} (h : names.foldl keepLater sofar = none) :
    sofar = none ∧ ∀ name, some name ∈ names → parseFilename name = none := by
  induction names generalizing sofar with
  | nil => exact ⟨h, by simp⟩
  | cons name names ih =>
      rcases ih h with ⟨hturn, hrest⟩
      rcases keepLater_cases sofar name with ⟨hsame, hpassed⟩ | ⟨n, k, -, -, htaken, -⟩
      · have hnone : sofar = none := hsame.symm.trans hturn
        refine ⟨hnone, ?_⟩
        intro n hn
        rcases List.mem_cons.mp hn with heq | hmem
        · apply Option.eq_none_iff_forall_ne_some.mpr
          intro k hk
          rcases hpassed n k heq.symm hk with ⟨b, hb, -⟩
          rw [hnone] at hb
          contradiction
        · exact hrest n hmem
      · rw [htaken] at hturn
        contradiction

/-- What the scan finds is in the list, or was known before, and nothing is greater. -/
theorem foldl_keepLater_eq_some {names : List (Option String)}
    {sofar : Option (String × (String × Nat))} {b : String × (String × Nat)}
    (h : names.foldl keepLater sofar = some b) :
    (sofar = some b ∨ (some b.1 ∈ names ∧ parseFilename b.1 = some b.2)) ∧
      (∀ s, sofar = some s → toLex s.2 ≤ toLex b.2) ∧
      ∀ name k, some name ∈ names → parseFilename name = some k → toLex k ≤ toLex b.2 := by
  induction names generalizing sofar with
  | nil =>
      refine ⟨Or.inl h, ?_, by simp⟩
      intro s hs
      rw [List.foldl_nil, hs] at h
      rw [Option.some.inj h]
  | cons name names ih =>
      rcases ih h with ⟨hfound, hsofar, hrest⟩
      rcases keepLater_cases sofar name with ⟨hsame, hpassed⟩ | ⟨n, k, hn, hk, htaken, hless⟩
      · rw [hsame] at hfound hsofar
        refine ⟨?_, hsofar, ?_⟩
        · rcases hfound with heq | ⟨hmem, hparses⟩
          · exact Or.inl heq
          · exact Or.inr ⟨List.mem_cons_of_mem _ hmem, hparses⟩
        · intro n k hn hk
          rcases List.mem_cons.mp hn with heq | hmem
          · rcases hpassed n k heq.symm hk with ⟨s, hs, hle⟩
            exact hle.trans (hsofar s hs)
          · exact hrest n k hmem hk
      · have hkb : toLex k ≤ toLex b.2 := hsofar (n, k) htaken
        refine ⟨?_, fun s hs => (hless s hs).trans hkb, ?_⟩
        · apply Or.inr
          rcases hfound with heq | ⟨hmem, hparses⟩
          · rw [htaken] at heq
            rw [← Option.some.inj heq]
            exact ⟨hn ▸ List.mem_cons_self, hk⟩
          · exact ⟨List.mem_cons_of_mem _ hmem, hparses⟩
        · intro n' k' hn' hk'
          rcases List.mem_cons.mp hn' with heq | hmem
          · rw [hn] at heq
            rw [Option.some.inj heq, hk] at hk'
            rw [← Option.some.inj hk']
            exact hkb
          · exact hrest n' k' hmem hk'

/-- Names that are not those of summaries make no difference to the scan. -/
theorem latestName_filter (names : List String) :
    latestName (names.map some) =
      latestName ((names.filter fun name => (parseFilename name).isSome).map some) := by
  have hfold : ∀ best : Option (String × (String × Nat)),
      (names.map some).foldl keepLater best =
        ((names.filter fun name => (parseFilename name).isSome).map some).foldl keepLater best := by
    induction names with
    | nil => exact fun _ => rfl
    | cons name names ih =>
        intro best
        rw [List.map_cons, List.foldl_cons, ih]
        cases hkey : parseFilename name with
        | none => simp [hkey, keepLater]
        | some key => simp [hkey]
  rw [latestName, latestName, hfold]

/-- The scan finds nothing exactly if no summary is listed. -/
theorem latestName_eq_none {names : List (Option String)} :
    latestName names = none ↔ ∀ name, some name ∈ names → parseFilename name = none := by
  rw [latestName, Option.map_eq_none_iff]
  constructor
  · intro hscan
    exact (foldl_keepLater_eq_none hscan).2
  · intro hnames
    cases hscan : names.foldl keepLater none with
    | none => rfl
    | some b =>
        rcases (foldl_keepLater_eq_some hscan).1 with hbefore | ⟨hlisted, hparses⟩
        · contradiction
        · rw [hnames b.1 hlisted] at hparses
          contradiction

/-- `best` is the greatest name of a summary in the list, and the only one with its key. -/
structure IsGreatest (names : List (Option String)) (best : String) (key : String × Nat) :
    Prop where
  listed : some best ∈ names
  parses : parseFilename best = some key
  greatest : ∀ name k, some name ∈ names → parseFilename name = some k → name ≠ best →
    toLex k < toLex key

/-- The scan finds the greatest name, in whatever order names are listed. -/
theorem latestName_eq {names : List (Option String)} {best : String} {key : String × Nat}
    (h : IsGreatest names best key) : latestName names = some best := by
  unfold latestName
  cases hscan : names.foldl keepLater none with
  | none =>
      have hnone := (foldl_keepLater_eq_none hscan).2 best h.listed
      rw [h.parses] at hnone
      contradiction
  | some b =>
      rcases foldl_keepLater_eq_some hscan with ⟨hfound, -, hmax⟩
      rcases hfound with hbefore | ⟨hlisted, hparses⟩
      · contradiction
      · by_cases hbest : b.1 = best
        · rw [Option.map_some, hbest]
        · have hless := h.greatest b.1 b.2 hlisted hparses hbest
          have hmore := hmax best key h.listed h.parses
          exact absurd hless (not_lt_of_ge hmore)

/-- All names of summaries in the list are as the program writes them. -/
def AllCanonical (names : List (Option String)) : Prop :=
  ∀ name k, some name ∈ names → parseFilename name = some k → name = summaryName k.1 k.2

/-- Among names as the program writes them, the scan finds the greatest. -/
theorem isGreatest_of_latestName {names : List (Option String)} (hnames : AllCanonical names)
    {best : String} (h : latestName names = some best) : ∃ key, IsGreatest names best key := by
  rcases Option.map_eq_some_iff.mp h with ⟨b, hscan, rfl⟩
  rcases foldl_keepLater_eq_some hscan with ⟨hfound, -, hmax⟩
  rcases hfound with hbefore | ⟨hlisted, hparses⟩
  · contradiction
  · refine ⟨b.2, hlisted, hparses, ?_⟩
    intro name k hname hk hne
    rcases lt_or_eq_of_le (hmax name k hname hk) with hlt | heq
    · exact hlt
    · have hkey : k = b.2 := toLex.injective heq
      rw [hnames name k hname hk, hkey, ← hnames b.1 b.2 hlisted hparses] at hne
      contradiction

end Memory
end MemoryHub
