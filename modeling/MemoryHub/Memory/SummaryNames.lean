import MemoryHub.Memory.SummaryOrder
import MemoryHub.Memory.Synthesizer

/-!
# Names of summaries as a code

The name of a summary stands for a date and a number.  What writes names, what reads them and
what scans a folder for the greatest agree on the code, for numbers of any length; numbers of
two digits and of three are not ordered as text.

Main results:

- Theorem `latestName_listed`: the scan finds the listed name with the greatest key.
- Theorem `summaryNames_code`: names parse back, the next name has a greater key, and the latest
  file is the one with the greatest.
-/

namespace MemoryHub
namespace Memory

open Prog

/-! ## Listings -/

/-- The folder lists the name of this date and number. -/
def Listed (names : List (Option String)) (date : String) (n : Nat) : Prop :=
  IsDateText date ∧ n < 2 ^ 32 ∧ some (summaryName date n) ∈ names

/-- The names in the listing that are recognised are as the program writes them.  Others may be
there as well. -/
def RecognisedWritten (names : List (Option String)) : Prop :=
  ∀ name, some name ∈ names → (parseFilename name).isSome = true →
    ∃ date n, IsDateText date ∧ n < 2 ^ 32 ∧ name = summaryName date n

variable {names : List (Option String)}

theorem parseFilename_of_lt {date : String} (hdate : IsDateText date) {n : Nat} (h : n < 2 ^ 32) :
    parseFilename (summaryName date n) = some (date, n) :=
  parseFilename_dateText hdate (Nat.le_pred_of_lt h)

/-- A recognised name has the key it was written for. -/
theorem RecognisedWritten.exists_key (h : RecognisedWritten names) {name : String}
    {key : String × Nat} (hname : some name ∈ names) (hkey : parseFilename name = some key) :
    Listed names key.1 key.2 ∧ name = summaryName key.1 key.2 := by
  rcases h name hname (by rw [hkey]; rfl) with ⟨date, n, hdate, hn, rfl⟩
  rw [parseFilename_of_lt hdate hn] at hkey
  rw [← Option.some.inj hkey]
  exact ⟨⟨hdate, hn, hname⟩, rfl⟩

/-- The scan finds the listed name with the greatest key. -/
theorem latestName_listed (h : RecognisedWritten names) {date : String} {n : Nat}
    (hlisted : Listed names date n)
    (hgreatest : ∀ date' n', Listed names date' n' → toLex (date', n') ≤ toLex (date, n)) :
    latestName names = some (summaryName date n) := by
  rcases hlisted with ⟨hdate, hn, hname⟩
  have hbest : IsGreatest names (summaryName date n) (date, n) := by
    refine ⟨hname, parseFilename_of_lt hdate hn, ?_⟩
    intro name key hmem hkey hne
    rcases h.exists_key hmem hkey with ⟨hother, heq⟩
    rcases lt_or_eq_of_le (hgreatest key.1 key.2 hother) with hlt | hsame
    · exact hlt
    · -- Names as the program writes them are the same if their keys are.
      have hpair : key = (date, n) := toLex.injective hsame
      rw [heq, hpair] at hne
      contradiction
  exact latestName_eq hbest

theorem latestName_unlisted (h : RecognisedWritten names)
    (hnone : ∀ date n, ¬ Listed names date n) : latestName names = none := by
  rw [latestName_eq_none]
  intro name hmem
  rw [Option.eq_none_iff_forall_ne_some]
  intro key hkey
  exact hnone _ _ (h.exists_key hmem hkey).1

/-! ## The latest file -/

section

variable {σ : Type} (handle : (c : SynthesizerCall) → σ → c.Response × σ)

/-- The latest file of a folder is the latest name with the size the file has. -/
theorem exec_findLatestSynthesisFile {folder : String} {s : σ}
    (hread : (handle (.readDir folder) s).1 = some names) :
    (exec handle (Synthesizer.findLatestSynthesisFile folder) s).1 =
      (latestName names).bind fun name =>
        (handle (.fileSize (folder ++ "/" ++ name)) (handle (.readDir folder) s).2).1.map
          fun size => (name, size) := by
  unfold Synthesizer.findLatestSynthesisFile
  simp only [Synthesizer.ask, exec_bind, exec_perform, hread]
  cases latestName names with
  | none => rfl
  | some name =>
      simp only [exec_bind, exec_perform, Option.bind_some]
      cases (handle (.fileSize (folder ++ "/" ++ name)) (handle (.readDir folder) s).2).1 with
      | none => rfl
      | some size => rfl

end

/-- Summary names are a faithful code of dates and numbers, and the latest file is found by it:
whatever order a folder lists its names in, and whatever it lists besides, the file is the one
with the greatest date and, among these, the greatest number. -/
theorem summaryNames_code :
    (∀ (date : String) (n : Nat), IsDateText date → n < 2 ^ 32 →
        parseFilename (summaryName date n) = some (date, n)) ∧
      (∀ (date : String) (n : Nat), IsDateText date → n < 2 ^ 32 - 1 →
        parseFilename (nextFilename (summaryName date n) date) = some (date, n + 1) ∧
          toLex (date, n) < toLex (date, n + 1)) ∧
      ∀ (σ : Type) (handle : (c : SynthesizerCall) → σ → c.Response × σ) (s : σ)
        (folder : String) (names : List (Option String)),
        (handle (.readDir folder) s).1 = some names → RecognisedWritten names →
        (∀ date n, Listed names date n →
          (∀ date' n', Listed names date' n' → toLex (date', n') ≤ toLex (date, n)) →
          (exec handle (Synthesizer.findLatestSynthesisFile folder) s).1 =
            (handle (.fileSize (folder ++ "/" ++ summaryName date n))
              (handle (.readDir folder) s).2).1.map fun size => (summaryName date n, size)) ∧
        ((∀ date n, ¬ Listed names date n) →
          (exec handle (Synthesizer.findLatestSynthesisFile folder) s).1 = none) := by
  refine ⟨fun date n hdate hn => parseFilename_of_lt hdate hn, ?_, ?_⟩
  · intro date n hdate hn
    have hroom : min (n + 1) u32Max = n + 1 := Nat.min_eq_left hn
    rw [nextFilename_eq (parseFilename_of_lt hdate (by omega)), if_pos rfl, hroom]
    refine ⟨parseFilename_of_lt hdate (by omega), ?_⟩
    rw [Prod.Lex.toLex_lt_toLex]
    exact Or.inr ⟨rfl, Nat.lt_succ_self n⟩
  · intro σ handle s folder names hread hnames
    rw [exec_findLatestSynthesisFile handle hread]
    constructor
    · intro date n hlisted hgreatest
      rw [latestName_listed hnames hlisted hgreatest, Option.bind_some]
    · intro hnone
      rw [latestName_unlisted hnames hnone, Option.bind_none]

/-- A folder with two summaries of a day, listed with a file that is none and a name that is not
text. -/
def hundredListed : List (Option String) :=
  [some "2026-05-20-100.md", none, some "notes.md", some "2026-05-20-99.md"]

/-- It answers with this listing, and every file has one byte. -/
def hundredFolder : (c : SynthesizerCall) → Unit → c.Response × Unit
  | .storageRead _, s => (.error .recvError, s)
  | .storageWrite _ _, s => (.error .recvError, s)
  | .embed _, s => (.error .recvError, s)
  | .synthesize _ _ _, s => (.error .recvError, s)
  | .indexInsert _, s => (.error .recvError, s)
  | .readDir _, s => (some hundredListed, s)
  | .fileSize _, s => (some 1, s)
  | .today, s => (may20, s)

theorem summaryNames_code_hundred :
    parseFilename "2026-05-20-99.md" = some ("2026-05-20", 99) ∧
      parseFilename (nextFilename "2026-05-20-99.md" "2026-05-20") = some ("2026-05-20", 100) ∧
      (exec hundredFolder (Synthesizer.findLatestSynthesisFile "_synthesized") ()).1 =
        some ("2026-05-20-100.md", 1) := by
  have hdate : IsDateText "2026-05-20" :=
    ⟨['2', '0', '2', '6'], ['0', '5'], ['2', '0'], ⟨by decide, List.all_eq_true.mp (by decide)⟩,
      ⟨by decide, List.all_eq_true.mp (by decide)⟩, ⟨by decide, List.all_eq_true.mp (by decide)⟩,
      by decide⟩
  have hkeys : ∀ name, some name ∈ hundredListed → name = "notes.md" ∨
      name = summaryName "2026-05-20" 99 ∨ name = summaryName "2026-05-20" 100 := by
    intro name hname
    simp only [hundredListed, List.mem_cons, List.not_mem_nil, Option.some.injEq, reduceCtorEq,
      or_false, false_or] at hname
    rcases hname with rfl | rfl | rfl
    · exact Or.inr (Or.inr (by decide))
    · exact Or.inl rfl
    · exact Or.inr (Or.inl (by decide))
  have hnotes : parseFilename "notes.md" = none := by decide
  have hwritten : RecognisedWritten hundredListed := by
    intro name hname hparses
    rcases hkeys name hname with rfl | rfl | rfl
    · rw [hnotes] at hparses
      contradiction
    · exact ⟨_, 99, hdate, by decide, rfl⟩
    · exact ⟨_, 100, hdate, by decide, rfl⟩
  have hlisted : Listed hundredListed "2026-05-20" 100 := ⟨hdate, by decide, by decide⟩
  have hgreatest : ∀ date' n', Listed hundredListed date' n' →
      toLex (date', n') ≤ toLex ("2026-05-20", 100) := by
    rintro date' n' ⟨hdate', hn', hname⟩
    have hparses := parseFilename_of_lt hdate' hn'
    rcases hkeys _ hname with heq | heq | heq
    · rw [heq, hnotes] at hparses
      contradiction
    · rw [heq, parseFilename_of_lt hdate (by decide)] at hparses
      rw [← Option.some.inj hparses]
      exact keyLe_iff.mp (by decide)
    · rw [heq, parseFilename_of_lt hdate (by decide)] at hparses
      rw [← Option.some.inj hparses]
  have hnames : "2026-05-20-99.md" = summaryName "2026-05-20" 99 := by decide
  rw [hnames]
  refine ⟨summaryNames_code.1 _ _ hdate (by decide),
    (summaryNames_code.2.1 _ _ hdate (by decide)).1, ?_⟩
  exact (summaryNames_code.2.2 Unit hundredFolder () "_synthesized" _ rfl hwritten).1 _ _ hlisted
    hgreatest

end Memory
end MemoryHub
