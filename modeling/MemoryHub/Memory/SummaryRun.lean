import MemoryHub.Lib.Machine
import MemoryHub.Memory.Disk

/-!
# Runs of summary writes

A summary goes to the path `current_synthesis_path` chooses, which depends on the names the
folder lists, the size of the greatest and the date.  As long as the clock does not go back,
the greatest name is that of the last summary written.

Main results:

- Theorem `written_summary_served`: the summary written last is the one served next.
- Theorem `full_files_spared_iff`: when exactly the path chosen is not that of a full file.
-/

namespace MemoryHub
namespace Memory

open Collections Machine Synthesizer

/-! ## Writes -/

/-- A summary to be written, and the surroundings in which its path is chosen. -/
structure SummaryWrite where
  target : SynthesisTarget
  today : NaiveDate
  content : String
  script : CycleScript

/-- The disk, and the date of the last write. -/
structure SummaryState where
  disk : Disk
  clock : Option NaiveDate

/-- The path a write chooses. -/
def SummaryWrite.path (a : SummaryWrite) (maxSize : Nat) (d : Disk) : String :=
  (a.script.exec (currentSynthesisPath a.target a.today maxSize) ⟨d, []⟩).1

/-- The path served for a target. -/
def servedPath (script : CycleScript) (target : SynthesisTarget) (d : Disk) : Option String :=
  (script.exec (getLatestSynthesisFile target) ⟨d, []⟩).1

/-- Choose the path and write. -/
def summaryStep (maxSize : Nat) (s : SummaryState) (a : SummaryWrite) : Option SummaryState :=
  some ⟨s.disk.insert (a.path maxSize s.disk) a.content, some a.today⟩

/-- The names a scan of the target's folder goes by. -/
def listed (script : CycleScript) (target : SynthesisTarget) (d : Disk) : List String :=
  script.listed [] (synthesisFolder target) d

/-- The scan of the target's folder goes through to the end. -/
abbrev Scans (script : CycleScript) (target : SynthesisTarget) (d : Disk) : Prop :=
  script.Scans [] (synthesisFolder target) d

theorem mem_of_listed {script : CycleScript} {target : SynthesisTarget} {d : Disk} {name : String}
    (h : name ∈ listed script target d) : name ∈ d.namesIn (synthesisFolder target) :=
  (script.listed_subperm [] (synthesisFolder target) d).subset h

theorem listed_perm {script : CycleScript} {target : SynthesisTarget} {d : Disk}
    (h : Scans script target d) :
    (listed script target d).Perm (d.namesIn (synthesisFolder target)) :=
  h.listed_perm

theorem SummaryWrite.path_eq (a : SummaryWrite) (maxSize : Nat) (d : Disk) :
    a.path maxSize d = summaryPath a.target (candidateName
      (latestIn d (synthesisFolder a.target) (listed a.script a.target d)) a.today.format
        maxSize) := by
  rcases findLatest_exec a.script (synthesisFolder a.target) ⟨d, []⟩ with ⟨events, hexec⟩
  unfold path currentSynthesisPath CycleScript.exec
  rw [Prog.exec_bind]
  unfold CycleScript.exec at hexec
  rw [hexec]
  rfl

theorem servedPath_eq (script : CycleScript) (target : SynthesisTarget) (d : Disk) :
    servedPath script target d =
      (latestIn d (synthesisFolder target) (listed script target d)).map fun file =>
        summaryPath target file.1 := by
  rcases findLatest_exec script (synthesisFolder target) ⟨d, []⟩ with ⟨events, hexec⟩
  unfold servedPath getLatestSynthesisFile CycleScript.exec
  rw [Prog.exec_bind]
  unfold CycleScript.exec at hexec
  rw [hexec]
  rfl

/-! ## The folder of a target -/

theorem isSummaryName_summaryName (date : NaiveDate) (suffix : Nat) :
    IsSummaryName (summaryName date.format suffix) := by
  refine ⟨?_, _, rfl⟩
  simp only [summaryName, isPlain_append]
  exact ⟨⟨⟨isPlain_format date, by decide⟩, isPlain_padded _ _⟩, by decide⟩

theorem slash_notMem_summaryName (date : NaiveDate) (suffix : Nat) :
    '/' ∉ (summaryName date.format suffix).toList :=
  (isSummaryName_summaryName date suffix).no_slash

/-- A write to the folder adds its name. -/
theorem mem_namesIn_insert {d : Disk} {target : SynthesisTarget} {new : String}
    (hnew : '/' ∉ new.toList) (content : String) {name : String} :
    name ∈ Disk.namesIn (d.insert (summaryPath target new) content) (synthesisFolder target) ↔
      name = new ∨ name ∈ d.namesIn (synthesisFolder target) := by
  rw [Disk.mem_namesIn, Disk.mem_namesIn, AList.mem_insert, summaryPath, String.append_right_inj]
  constructor
  · rintro ⟨hslash, heq | hmem⟩
    · exact Or.inl heq
    · exact Or.inr ⟨hslash, hmem⟩
  · rintro (rfl | ⟨hslash, hmem⟩)
    · exact ⟨hnew, Or.inl rfl⟩
    · exact ⟨hslash, Or.inr hmem⟩

/-- The greatest name that is listed is found, with the size of its file. -/
theorem latestIn_eq {d : Disk} {target : SynthesisTarget} {names : List String}
    (hnames : ∀ name ∈ names, name ∈ d.namesIn (synthesisFolder target)) {best : String}
    {key : String × Nat} (h : IsGreatest (names.map some) best key) :
    ∃ content, d.lookup (summaryPath target best) = some content ∧
      latestIn d (synthesisFolder target) names = some (best, content.utf8ByteSize) := by
  have hlisted : best ∈ d.namesIn (synthesisFolder target) := by
    rcases List.mem_map.mp h.listed with ⟨name, hname, heq⟩
    rw [← Option.some.inj heq]
    exact hnames name hname
  have hmem := (Disk.mem_namesIn.mp hlisted).2
  rcases Option.isSome_iff_exists.mp (AList.lookup_isSome.mpr hmem) with ⟨content, hcontent⟩
  refine ⟨content, hcontent, ?_⟩
  rw [latestIn, latestName_eq h]
  simp only [hcontent, Option.map_some]

/-! ## Growing names -/

/-- The folder holds numbered summaries, and the last one is number `n` of `date`. -/
structure EndsWith (names : List String) (date : NaiveDate) (n : Nat) : Prop where
  fourDigits : date.FourDigits
  pos : 1 ≤ n
  le_max : n ≤ u32Max
  numbered : ∀ k, 1 ≤ k → k ≤ n → summaryName date.format k ∈ names
  known : ∀ name ∈ names, ∃ (date' : NaiveDate) (k : Nat), date'.FourDigits ∧ k ≤ u32Max ∧
    name = summaryName date'.format k ∧ (date'.Before date ∨ (date' = date ∧ k ≤ n))

namespace EndsWith

variable {names : List String} {date : NaiveDate} {n : Nat}

/-- The last summary has the greatest name. -/
theorem isGreatest (h : EndsWith names date n) {listing : List String}
    (hlisting : listing.Perm names) :
    IsGreatest (listing.map some) (summaryName date.format n) (date.format, n) where
  listed := List.mem_map_of_mem (hlisting.mem_iff.mpr (h.numbered n h.pos (Nat.le_refl n)))
  parses := parseFilename_summaryName h.fourDigits h.le_max
  greatest := by
    intro name key hname hkey hne
    rcases List.mem_map.mp hname with ⟨name', hname', heq⟩
    rw [Option.some.inj heq] at hname'
    rcases h.known name (hlisting.mem_iff.mp hname') with ⟨date', k, hdate', hk, rfl, hless⟩
    rw [parseFilename_summaryName hdate' hk] at hkey
    rw [← Option.some.inj hkey, Prod.Lex.toLex_lt_toLex]
    rcases hless with hbefore | ⟨rfl, hle⟩
    · exact Or.inl (NaiveDate.format_lt hdate' h.fourDigits hbefore)
    · refine Or.inr ⟨rfl, lt_of_le_of_ne hle ?_⟩
      rintro rfl
      exact hne rfl

/-- Writing the last summary again changes nothing. -/
theorem same (h : EndsWith names date n) {names' : List String}
    (hnames' : ∀ name, name ∈ names' ↔ name = summaryName date.format n ∨ name ∈ names) :
    EndsWith names' date n := by
  have hlast := h.numbered n h.pos (Nat.le_refl n)
  refine ⟨h.fourDigits, h.pos, h.le_max, ?_, ?_⟩
  · intro k hk hkn
    exact (hnames' _).mpr (Or.inr (h.numbered k hk hkn))
  · intro name hname
    rcases (hnames' name).mp hname with rfl | hmem
    · exact h.known _ hlast
    · exact h.known name hmem

/-- The next number of the same date. -/
theorem next (h : EndsWith names date n) (hroom : n < u32Max) {names' : List String}
    (hnames' : ∀ name, name ∈ names' ↔ name = summaryName date.format (n + 1) ∨ name ∈ names) :
    EndsWith names' date (n + 1) := by
  refine ⟨h.fourDigits, by omega, hroom, ?_, ?_⟩
  · intro k hk hkn
    by_cases hlast : k = n + 1
    · exact (hnames' _).mpr (Or.inl (by rw [hlast]))
    · exact (hnames' _).mpr (Or.inr (h.numbered k hk (by omega)))
  · intro name hname
    rcases (hnames' name).mp hname with rfl | hmem
    · exact ⟨date, n + 1, h.fourDigits, hroom, rfl, Or.inr ⟨rfl, Nat.le_refl _⟩⟩
    · rcases h.known name hmem with ⟨date', k, hdate', hk, rfl, hless⟩
      refine ⟨date', k, hdate', hk, rfl, ?_⟩
      rcases hless with hbefore | ⟨heq, hle⟩
      · exact Or.inl hbefore
      · exact Or.inr ⟨heq, by omega⟩

end EndsWith

theorem NaiveDate.Before.trans {a b c : NaiveDate} (hab : a.Before b) (hbc : b.Before c) :
    a.Before c := by
  unfold NaiveDate.Before at *
  omega

/-- The first number of a later date, or of any date in an empty folder. -/
theorem endsWith_first {names names' : List String} {today : NaiveDate}
    (htoday : today.FourDigits)
    (hnames : ∀ name ∈ names, ∃ (date : NaiveDate) (k : Nat), date.FourDigits ∧ k ≤ u32Max ∧
      name = summaryName date.format k ∧ date.Before today)
    (hnames' : ∀ name, name ∈ names' ↔ name = summaryName today.format 1 ∨ name ∈ names) :
    EndsWith names' today 1 := by
  refine ⟨htoday, Nat.le_refl 1, by decide, ?_, ?_⟩
  · intro k hk hkn
    have hone : k = 1 := by omega
    exact (hnames' _).mpr (Or.inl (by rw [hone]))
  · intro name hname
    rcases (hnames' name).mp hname with rfl | hmem
    · exact ⟨today, 1, htoday, by decide, rfl, Or.inr ⟨rfl, Nat.le_refl 1⟩⟩
    · rcases hnames name hmem with ⟨date, k, hdate, hk, heq, hbefore⟩
      exact ⟨date, k, hdate, hk, heq, Or.inl hbefore⟩

theorem NaiveDate.format_inj {a b : NaiveDate} (ha : a.FourDigits) (hb : b.FourDigits)
    (h : a.format = b.format) : a = b := by
  rcases NaiveDate.before_trichotomy a b with hab | heq | hba
  · have hlt := NaiveDate.format_lt ha hb hab
    rw [h] at hlt
    exact absurd hlt (String.lt_irrefl _)
  · exact heq
  · have hlt := NaiveDate.format_lt hb ha hba
    rw [h] at hlt
    exact absurd hlt (String.lt_irrefl _)

/-- The names of one date are fewer than the numbers there are. -/
def FewFiles (target : SynthesisTarget) (d : Disk) : Prop :=
  ∀ date : String, ((d.namesIn (synthesisFolder target)).filter fun name =>
    (parseFilename name).map Prod.fst = some date).length < 2 ^ 32 - 1

/-- While there are few files, there is a next number. -/
theorem EndsWith.lt_max {target : SynthesisTarget} {d : Disk} {date : NaiveDate} {n : Nat}
    (h : EndsWith (d.namesIn (synthesisFolder target)) date n) (hfew : FewFiles target d) :
    n < u32Max := by
  have hparse : ∀ k, k < n → parseFilename (summaryName date.format (k + 1)) =
      some (date.format, k + 1) := by
    intro k hk
    have hmax := h.le_max
    exact parseFilename_summaryName h.fourDigits (by omega)
  have hnodup : ((List.range n).map fun k => summaryName date.format (k + 1)).Nodup := by
    apply List.Nodup.map_on _ List.nodup_range
    intro j hj k hk heq
    have hsame := hparse j (List.mem_range.mp hj)
    rw [heq, hparse k (List.mem_range.mp hk)] at hsame
    have hnumber := congrArg Prod.snd (Option.some.inj hsame)
    simp only at hnumber
    omega
  have hsubset : ((List.range n).map fun k => summaryName date.format (k + 1)) ⊆
      (d.namesIn (synthesisFolder target)).filter fun name =>
        (parseFilename name).map Prod.fst = some date.format := by
    intro name hname
    rcases List.mem_map.mp hname with ⟨k, hk, rfl⟩
    have hk := List.mem_range.mp hk
    rw [List.mem_filter, hparse k hk]
    exact ⟨h.numbered (k + 1) (by omega) (by omega), by simp⟩
  have hlen := (hnodup.subperm hsubset).length_le
  rw [List.length_map, List.length_range] at hlen
  exact Nat.lt_of_le_of_lt hlen (hfew date.format)

/-! ## The summary served next -/

/-- The write is to the target, whose folder is scanned to the end, on a date of a four-digit
year not before the last one, and there are fewer files of each date than numbers. -/
structure Advances (target : SynthesisTarget) (s : SummaryState) (a : SummaryWrite) : Prop where
  target_eq : a.target = target
  scans : Scans a.script target s.disk
  fourDigits : a.today.FourDigits
  clock : ∀ date, s.clock = some date → ¬ a.today.Before date
  fewFiles : FewFiles target s.disk

/-- The folder is empty, or ends with a summary of a date that has come. -/
def InOrder (target : SynthesisTarget) (s : SummaryState) : Prop :=
  s.disk.namesIn (synthesisFolder target) = [] ∨
    ∃ date n c, EndsWith (s.disk.namesIn (synthesisFolder target)) date n ∧
      s.clock = some c ∧ ¬ c.Before date

/-- After a write the folder ends with the summary written. -/
theorem endsWith_of_write {target : SynthesisTarget} {maxSize : Nat} {s t : SummaryState}
    {a : SummaryWrite} (horder : InOrder target s) (ha : Advances target s a)
    (h : summaryStep maxSize s a = some t) :
    ∃ date n, a.path maxSize s.disk = summaryPath target (summaryName date.format n) ∧
      EndsWith (t.disk.namesIn (synthesisFolder target)) date n ∧ ¬ a.today.Before date := by
  rcases ha with ⟨rfl, hscans, htoday, hclock, hfew⟩
  cases h
  have hperm := listed_perm hscans
  have hirrefl : ¬ a.today.Before a.today := by
    unfold NaiveDate.Before
    omega
  -- What the folder holds once a name has been chosen.
  have hwritten : ∀ (date : NaiveDate) n, a.path maxSize s.disk =
      summaryPath a.target (summaryName date.format n) → ∀ name,
        name ∈ Disk.namesIn (s.disk.insert (a.path maxSize s.disk) a.content)
          (synthesisFolder a.target) ↔ name = summaryName date.format n ∨
            name ∈ s.disk.namesIn (synthesisFolder a.target) := by
    intro date n hpath name
    rw [hpath]
    exact mem_namesIn_insert (slash_notMem_summaryName date n) a.content
  rcases horder with hempty | ⟨date, n, c, hends, hc, hcome⟩
  · have hpath : a.path maxSize s.disk =
        summaryPath a.target (summaryName a.today.format 1) := by
      rw [hempty] at hperm
      rw [a.path_eq, latestIn, hperm.eq_nil]
      exact congrArg (summaryPath a.target) (first_summaryName _)
    refine ⟨a.today, 1, hpath, endsWith_first htoday ?_ (hwritten _ _ hpath), hirrefl⟩
    rw [hempty]
    simp
  · have hnotBefore : ¬ a.today.Before date := by
      intro hbefore
      rcases NaiveDate.before_trichotomy c a.today with hlt | heq | hgt
      · exact hcome (hlt.trans hbefore)
      · exact hcome (heq ▸ hbefore)
      · exact hclock c hc hgt
    rcases latestIn_eq (fun _ h => hperm.subset h) (hends.isGreatest hperm) with
      ⟨content, -, hlatest⟩
    have hparses := parseFilename_summaryName hends.fourDigits hends.le_max
    have hpath := a.path_eq maxSize s.disk
    rw [hlatest, candidateName] at hpath
    split at hpath
    · exact ⟨date, n, hpath, hends.same (hwritten _ _ hpath), hnotBefore⟩
    · rw [nextFilename_eq hparses] at hpath
      split at hpath <;> rename_i hdate
      · have hroom := hends.lt_max hfew
        have hsame := NaiveDate.format_inj hends.fourDigits htoday hdate
        rw [Nat.min_eq_left hroom, ← hdate] at hpath
        exact ⟨date, n + 1, hpath, hends.next hroom (hwritten _ _ hpath), hnotBefore⟩
      · have hbefore : date.Before a.today := by
          rcases NaiveDate.before_trichotomy date a.today with hlt | heq | hgt
          · exact hlt
          · exact absurd (congrArg NaiveDate.format heq) hdate
          · exact absurd hgt hnotBefore
        refine ⟨a.today, 1, hpath, endsWith_first htoday ?_ (hwritten _ _ hpath), hirrefl⟩
        intro name hname
        rcases hends.known name hname with ⟨date', k, hdate', hk, heq, hless⟩
        refine ⟨date', k, hdate', hk, heq, ?_⟩
        rcases hless with hlt | ⟨rfl, -⟩
        · exact hlt.trans hbefore
        · exact hbefore

/-- A write keeps the folder in order. -/
theorem inOrder_step {target : SynthesisTarget} {maxSize : Nat} {s t : SummaryState}
    {a : SummaryWrite} (horder : InOrder target s) (ha : Advances target s a)
    (h : summaryStep maxSize s a = some t) : InOrder target t := by
  rcases endsWith_of_write horder ha h with ⟨date, n, -, hends, hcome⟩
  cases h
  exact Or.inr ⟨date, n, a.today, hends, rfl, hcome⟩

/-- In every run of writes to a target, from an empty folder and with a clock that does not go
back, the summary written last is the one served next. -/
theorem written_summary_served {target : SynthesisTarget} {maxSize : Nat} {s₀ : SummaryState}
    (hempty : s₀.disk.namesIn (synthesisFolder target) = []) {as : List SummaryWrite}
    (hmeet : StepsMeet (summaryStep maxSize) (Advances target) s₀ as) {s : SummaryState}
    (hrun : run (summaryStep maxSize) s₀ as = some s) {a : SummaryWrite}
    (ha : Advances target s a) {t : SummaryState} (hstep : summaryStep maxSize s a = some t)
    {script : CycleScript} (hscans : Scans script target t.disk) :
    servedPath script target t.disk = some (a.path maxSize s.disk) := by
  have horder : InOrder target s :=
    run_invariant_of_stepsMeet (fun _ _ _ => inOrder_step) (Or.inl hempty) hmeet hrun
  rcases endsWith_of_write horder ha hstep with ⟨date, n, hpath, hends, -⟩
  have hperm := listed_perm hscans
  rcases latestIn_eq (fun _ h => hperm.subset h) (hends.isGreatest hperm) with
    ⟨content, -, hlatest⟩
  rw [servedPath_eq, hlatest, hpath]
  rfl

/-- A global summary of one byte. -/
def dailySummary (today : NaiveDate) : SummaryWrite :=
  ⟨.global, today, "x", .quiet today fun _ => ""⟩

theorem fewFiles_of_length {target : SynthesisTarget} {d : Disk}
    (h : (d.namesIn (synthesisFolder target)).length < 2 ^ 32 - 1) : FewFiles target d :=
  fun _ => Nat.lt_of_le_of_lt (List.length_filter_le _ _) h

/-- With a cap of one byte, each day's summary is a file of its own. -/
theorem daily_summary_served :
    ∃ s t, run (summaryStep 1) ⟨∅, none⟩ [dailySummary may19] = some s ∧
      summaryStep 1 s (dailySummary may20) = some t ∧
        servedPath (.quiet may20 fun _ => "") .global t.disk =
          some ((dailySummary may20).path 1 s.disk) := by
  have hfirst : Advances .global ⟨∅, none⟩ (dailySummary may19) :=
    ⟨rfl, ⟨rfl, rfl⟩, by decide, by simp, fewFiles_of_length (by decide +kernel)⟩
  refine ⟨_, _, rfl, rfl, @written_summary_served .global 1 ⟨∅, none⟩ (by decide +kernel)
    [dailySummary may19] ?_ _ rfl _ ?_ _ rfl _ ⟨rfl, rfl⟩⟩
  · intro s _
    exact ⟨hfirst, trivial⟩
  · refine ⟨rfl, ⟨rfl, rfl⟩, by decide, ?_, fewFiles_of_length (by decide +kernel)⟩
    intro date hdate
    rw [← Option.some.inj hdate]
    decide

/-! ## Full files -/

/-- The path the write chooses is not that of a file at or above the cap. -/
def SparesFull (maxSize : Nat) (s : SummaryState) (a : SummaryWrite) : Prop :=
  ∀ content, s.disk.lookup (a.path maxSize s.disk) = some content →
    content.utf8ByteSize < maxSize

/-- The name with this number of the date is not that of a file at or above the cap. -/
def Free (maxSize : Nat) (d : Disk) (target : SynthesisTarget) (today : NaiveDate)
    (suffix : Nat) : Prop :=
  ∀ content, d.lookup (summaryPath target (summaryName today.format suffix)) = some content →
    content.utf8ByteSize < maxSize

/-- The names of a target's folder. -/
def folderListing (d : Disk) (target : SynthesisTarget) : List (Option String) :=
  (d.namesIn (synthesisFolder target)).map some

/-- The names the write goes by. -/
def SummaryWrite.listing (a : SummaryWrite) (d : Disk) : List (Option String) :=
  (listed a.script a.target d).map some

/-- Where the greatest summary listed is full, it is of the date and has a number to follow, whose
name is free, or it is of another date, and then the first name of the date is free; so it is
where no summary is listed. -/
structure RoomFor (maxSize : Nat) (d : Disk) (a : SummaryWrite) : Prop where
  same_date : ∀ best key content, IsGreatest (a.listing d) best key →
    d.lookup (summaryPath a.target best) = some content → maxSize ≤ content.utf8ByteSize →
      key.1 = a.today.format → key.2 < u32Max ∧ Free maxSize d a.target a.today (key.2 + 1)
  other_date : ∀ best key content, IsGreatest (a.listing d) best key →
    d.lookup (summaryPath a.target best) = some content → maxSize ≤ content.utf8ByteSize →
      key.1 ≠ a.today.format → Free maxSize d a.target a.today 1
  no_summary : (∀ name, some name ∈ a.listing d → parseFilename name = none) →
    Free maxSize d a.target a.today 1

/-- The summaries in every folder have names as the program writes them. -/
def CanonicalDisk (d : Disk) : Prop :=
  ∀ target, AllCanonical (folderListing d target)

theorem IsGreatest.of_perm {names names' : List String} (h : names.Perm names') {best : String}
    {key : String × Nat} (hbest : IsGreatest (names.map some) best key) :
    IsGreatest (names'.map some) best key where
  listed := ((h.map some).mem_iff).mp hbest.listed
  parses := hbest.parses
  greatest := fun name k hname => hbest.greatest name k (((h.map some).mem_iff).mpr hname)

theorem IsGreatest.unique {names : List (Option String)} {best best' : String}
    {key key' : String × Nat} (h : IsGreatest names best key) (h' : IsGreatest names best' key') :
    best = best' ∧ key = key' := by
  have hname := latestName_eq h
  rw [latestName_eq h'] at hname
  have hbest := (Option.some.inj hname).symm
  have hkey := h.parses
  rw [hbest, h'.parses] at hkey
  exact ⟨hbest, (Option.some.inj hkey).symm⟩

/-- The next number of the greatest name's date is new. -/
theorem lookup_next {d : Disk} {target : SynthesisTarget} {best : String} {key : String × Nat}
    (h : IsGreatest (folderListing d target) best key) {today : NaiveDate}
    (hdate : key.1 = today.format) (hroom : key.2 < u32Max) :
    d.lookup (summaryPath target (summaryName today.format (key.2 + 1))) = none := by
  by_contra hne
  have hmem : summaryPath target (summaryName today.format (key.2 + 1)) ∈ d :=
    AList.lookup_isSome.mp (Option.isSome_iff_ne_none.mpr hne)
  have hlisted : some (summaryName today.format (key.2 + 1)) ∈ folderListing d target :=
    List.mem_map_of_mem (Disk.mem_namesIn.mpr ⟨slash_notMem_summaryName _ _, hmem⟩)
  rcases exists_digit_of_parseFilename h.parses with ⟨c, rest, hc, hkey⟩
  have htoday := fourDigits_of_format (hdate ▸ hkey) hc
  have hparses : parseFilename (summaryName today.format (key.2 + 1)) =
      some (today.format, key.2 + 1) := parseFilename_summaryName htoday hroom
  have hlt : toLex key < toLex (today.format, key.2 + 1) := by
    rw [Prod.Lex.toLex_lt_toLex]
    exact Or.inr ⟨hdate, Nat.lt_succ_self _⟩
  have hother : summaryName today.format (key.2 + 1) ≠ best := by
    intro heq
    rw [heq, h.parses] at hparses
    have hnumber := congrArg Prod.snd (Option.some.inj hparses)
    simp only at hnumber
    omega
  exact absurd hlt (lt_asymm (h.greatest _ _ hlisted hparses hother))

/-- After a scan that goes through, the next number of the greatest name's date is free. -/
theorem free_next {maxSize : Nat} {d : Disk} {a : SummaryWrite} (hscans : Scans a.script a.target d)
    {best : String} {key : String × Nat} (h : IsGreatest (a.listing d) best key)
    (hdate : key.1 = a.today.format) (hroom : key.2 < u32Max) :
    Free maxSize d a.target a.today (key.2 + 1) := by
  intro content hcontent
  rw [lookup_next (h.of_perm (listed_perm hscans)) hdate hroom] at hcontent
  contradiction

section

variable {maxSize : Nat} {d : Disk} {a : SummaryWrite} {best content : String}
  {key : String × Nat}

theorem CanonicalDisk.listing (h : CanonicalDisk d) (a : SummaryWrite) :
    AllCanonical (a.listing d) := by
  intro name k hname
  rcases List.mem_map.mp hname with ⟨name', hname', heq⟩
  rw [Option.some.inj heq] at hname'
  exact h a.target name k (List.mem_map_of_mem (mem_of_listed hname'))

/-- Where no summary is listed, the first name of the date is chosen. -/
theorem path_of_none (h : latestName (a.listing d) = none) :
    a.path maxSize d = summaryPath a.target (summaryName a.today.format 1) := by
  rw [a.path_eq, latestIn]
  unfold SummaryWrite.listing at h
  rw [h, candidateName, first_summaryName]

/-- Which path is chosen after the greatest name listed. -/
theorem path_of_greatest (maxSize : Nat) (h : IsGreatest (a.listing d) best key)
    (hcontent : d.lookup (summaryPath a.target best) = some content) :
    a.path maxSize d = summaryPath a.target (if content.utf8ByteSize < maxSize then best
      else if key.1 = a.today.format then summaryName a.today.format (min (key.2 + 1) u32Max)
      else summaryName a.today.format 1) := by
  rcases latestIn_eq (fun _ => mem_of_listed) h with ⟨content', hcontent', hfound⟩
  rw [hcontent, Option.some.injEq] at hcontent'
  subst hcontent'
  rw [a.path_eq, hfound, candidateName, nextFilename_eq h.parses]

theorem roomFor_of_none (h : latestName (a.listing d) = none) :
    RoomFor maxSize d a ↔ Free maxSize d a.target a.today 1 := by
  have hnone := latestName_eq_none.mp h
  have hnot : ∀ best key, ¬ IsGreatest (a.listing d) best key := by
    intro best key hbest
    have hparses := hbest.parses
    rw [hnone best hbest.listed] at hparses
    contradiction
  constructor
  · intro hroom
    exact hroom.no_summary hnone
  · intro hfree
    exact ⟨fun best key _ hbest => absurd hbest (hnot best key),
      fun best key _ hbest => absurd hbest (hnot best key), fun _ => hfree⟩

/-- What room there is after the greatest name listed. -/
theorem roomFor_of_greatest (h : IsGreatest (a.listing d) best key)
    (hcontent : d.lookup (summaryPath a.target best) = some content) :
    RoomFor maxSize d a ↔ (maxSize ≤ content.utf8ByteSize →
      (key.1 = a.today.format →
        key.2 < u32Max ∧ Free maxSize d a.target a.today (key.2 + 1)) ∧
      (key.1 ≠ a.today.format → Free maxSize d a.target a.today 1)) := by
  have hunique : ∀ best' key' content', IsGreatest (a.listing d) best' key' →
      d.lookup (summaryPath a.target best') = some content' →
        key' = key ∧ content' = content := by
    intro best' key' content' hbest' hcontent'
    rcases h.unique hbest' with ⟨rfl, rfl⟩
    rw [hcontent] at hcontent'
    exact ⟨rfl, (Option.some.inj hcontent').symm⟩
  constructor
  · intro hroom hfull
    exact ⟨hroom.same_date best key content h hcontent hfull,
      hroom.other_date best key content h hcontent hfull⟩
  · intro hroom
    refine ⟨?_, ?_, ?_⟩
    · intro best' key' content' hbest' hcontent' hfull
      rcases hunique best' key' content' hbest' hcontent' with ⟨rfl, rfl⟩
      exact (hroom hfull).1
    · intro best' key' content' hbest' hcontent' hfull
      rcases hunique best' key' content' hbest' hcontent' with ⟨rfl, rfl⟩
      exact (hroom hfull).2
    · intro hnone
      have hparses := h.parses
      rw [hnone best h.listed] at hparses
      contradiction

/-- The last number of a date has none to follow: the full file itself is chosen again. -/
theorem not_sparesFull_of_last (hcanonical : AllCanonical (a.listing d))
    (h : IsGreatest (a.listing d) best key)
    (hcontent : d.lookup (summaryPath a.target best) = some content)
    (hfull : ¬ content.utf8ByteSize < maxSize) (hdate : key.1 = a.today.format)
    (hlast : ¬ key.2 < u32Max) {clock : Option NaiveDate} :
    ¬ SparesFull maxSize ⟨d, clock⟩ a := by
  rcases parseFilename_eq_some h.parses with ⟨-, -, -, -, -, -, -, -, -, hmax, -⟩
  have hmin : min (key.2 + 1) u32Max = key.2 := by omega
  have hname : summaryName a.today.format key.2 = best := by
    rw [← hdate]
    exact (hcanonical best key h.listed h.parses).symm
  have hpath := path_of_greatest maxSize h hcontent
  rw [if_neg hfull, if_pos hdate, hmin, hname] at hpath
  intro hspares
  exact hfull (hspares content (by rw [hpath, hcontent]))

end

/-- The path chosen is not that of a full file exactly if there is room. -/
theorem sparesFull_iff {maxSize : Nat} {s : SummaryState} (hcanonical : CanonicalDisk s.disk)
    (a : SummaryWrite) : SparesFull maxSize s a ↔ RoomFor maxSize s.disk a := by
  cases hlatest : latestName (a.listing s.disk) with
  | none =>
      rw [roomFor_of_none hlatest, SparesFull, path_of_none hlatest]
      rfl
  | some best =>
      have hcanon := hcanonical.listing a
      rcases isGreatest_of_latestName hcanon hlatest with ⟨key, hbest⟩
      rcases latestIn_eq (fun _ => mem_of_listed) hbest with ⟨content, hcontent, -⟩
      have hpath := path_of_greatest maxSize hbest hcontent
      rw [roomFor_of_greatest hbest hcontent]
      by_cases hsize : content.utf8ByteSize < maxSize
      · -- Below the cap the greatest is written again.
        refine iff_of_true ?_ (fun hfull => absurd hfull (by omega))
        intro content' hcontent'
        rw [hpath, if_pos hsize, hcontent] at hcontent'
        rw [← Option.some.inj hcontent']
        exact hsize
      · rw [if_neg hsize] at hpath
        have hfull : maxSize ≤ content.utf8ByteSize := by omega
        simp only [hfull, true_imp_iff]
        by_cases hdate : key.1 = a.today.format
        · by_cases hroom : key.2 < u32Max
          · rw [if_pos hdate, Nat.min_eq_left hroom] at hpath
            rw [SparesFull, hpath]
            simp [hdate, hroom, Free]
          · refine iff_of_false
              (not_sparesFull_of_last hcanon hbest hcontent hsize hdate hroom) ?_
            intro h
            exact hroom (h.1 hdate).1
        · rw [if_neg hdate] at hpath
          rw [SparesFull, hpath]
          simp [hdate, Free]

/-- A name as the program writes it, in any folder, leaves all names so. -/
theorem CanonicalDisk.insert {d : Disk} (h : CanonicalDisk d) {target : SynthesisTarget}
    {new : String} (hslash : '/' ∉ new.toList)
    (hnew : ∀ k, parseFilename new = some k → new = summaryName k.1 k.2) (content : String) :
    CanonicalDisk (d.insert (summaryPath target new) content) := by
  intro target' name k hname hk
  rcases List.mem_map.mp hname with ⟨name', hname', heq⟩
  rw [Option.some.inj heq, Disk.mem_namesIn, AList.mem_insert] at hname'
  rcases hname' with ⟨hslash', hpath | hmem⟩
  · -- The path ends with the same name in either folder.
    have hlist := congrArg String.toList hpath
    have hsep : "/".toList = ['/'] := by decide
    simp only [summaryPath, String.toList_append, hsep, List.append_assoc,
      List.singleton_append] at hlist
    have hsame := String.toList_inj.mp (Decimal.append_sep_inj hslash' hslash hlist).2
    rw [hsame] at hk ⊢
    exact hnew k hk
  · exact h target' name k (List.mem_map_of_mem (Disk.mem_namesIn.mpr ⟨hslash', hmem⟩)) hk

/-- A write leaves all names as the program writes them. -/
theorem canonical_step {maxSize : Nat} {s t : SummaryState} {a : SummaryWrite}
    (hcanonical : CanonicalDisk s.disk) (h : summaryStep maxSize s a = some t) :
    CanonicalDisk t.disk := by
  cases h
  have hwritten : ∀ suffix, suffix ≤ u32Max → CanonicalDisk
      (s.disk.insert (summaryPath a.target (summaryName a.today.format suffix)) a.content) := by
    intro suffix hsuffix
    apply hcanonical.insert (slash_notMem_summaryName _ _)
    intro k hk
    rw [(parseFilename_written hsuffix hk).2]
  cases hlatest : latestName (a.listing s.disk) with
  | none =>
      rw [path_of_none hlatest]
      exact hwritten 1 (by decide)
  | some best =>
      have hcanon := hcanonical.listing a
      rcases isGreatest_of_latestName hcanon hlatest with ⟨key, hbest⟩
      rcases latestIn_eq (fun _ => mem_of_listed) hbest with ⟨content, hcontent, -⟩
      rw [path_of_greatest maxSize hbest hcontent]
      split
      · apply hcanonical.insert (isSummaryName_of_parseFilename hbest.parses).no_slash
        intro k hk
        exact hcanon best k hbest.listed hk
      · split
        · exact hwritten _ (Nat.min_le_right _ _)
        · exact hwritten 1 (by decide)

/-- A write that chooses another path than that of a full file replaces no full file. -/
theorem SparesFull.keeps {maxSize : Nat} {s t : SummaryState} {a : SummaryWrite}
    (h : SparesFull maxSize s a) (hstep : summaryStep maxSize s a = some t) {path content : String}
    (hcontent : s.disk.lookup path = some content) (hfull : maxSize ≤ content.utf8ByteSize) :
    t.disk.lookup path = some content := by
  cases hstep
  have hne : path ≠ a.path maxSize s.disk := by
    rintro rfl
    have := h content hcontent
    omega
  rw [AList.lookup_insert_ne hne]
  exact hcontent

/-- In a run from a disk with summaries as the program writes them, every write chooses another
path than that of a full file exactly if every write finds room; and then no full file is ever
replaced. -/
theorem full_files_spared_iff {maxSize : Nat} {s₀ : SummaryState}
    (hcanonical : CanonicalDisk s₀.disk) (as : List SummaryWrite) :
    (StepsMeet (summaryStep maxSize) (SparesFull maxSize) s₀ as ↔
        StepsMeet (summaryStep maxSize) (fun s a => RoomFor maxSize s.disk a)
          s₀ as) ∧
      (StepsMeet (summaryStep maxSize) (fun s a => RoomFor maxSize s.disk a)
          s₀ as → ∀ s, run (summaryStep maxSize) s₀ as = some s → ∀ path content,
            s₀.disk.lookup path = some content → maxSize ≤ content.utf8ByteSize →
              s.disk.lookup path = some content) := by
  have hiff : StepsMeet (summaryStep maxSize) (SparesFull maxSize) s₀ as ↔
      StepsMeet (summaryStep maxSize) (fun s a => RoomFor maxSize s.disk a)
        s₀ as :=
    stepsMeet_congr (I := fun s => CanonicalDisk s.disk) (fun _ _ _ => canonical_step)
      (fun _ a hs => sparesFull_iff hs a) hcanonical
  refine ⟨hiff, ?_⟩
  intro hroom s hrun path content hcontent hfull
  exact run_invariant_of_stepsMeet (I := fun s => s.disk.lookup path = some content)
    (fun _ _ _ hkept hspares hstep => hspares.keeps hstep hkept hfull) hcontent
    (hiff.mpr hroom) hrun

/-- While the clock is not behind the names of the folder and its scan goes through, there is
room. -/
theorem roomFor_of_forward {maxSize : Nat} {d : Disk} {a : SummaryWrite}
    (hscans : Scans a.script a.target d) (htoday : a.today.FourDigits)
    (h : ∀ name k, some name ∈ folderListing d a.target → parseFilename name = some k →
      toLex k < toLex (a.today.format, u32Max)) : RoomFor maxSize d a := by
  have hparses : parseFilename (summaryName a.today.format 1) = some (a.today.format, 1) :=
    parseFilename_summaryName htoday (by decide)
  have hperm := (listed_perm hscans).map some
  have hlisted : ∀ content, d.lookup (summaryPath a.target (summaryName a.today.format 1)) =
      some content → some (summaryName a.today.format 1) ∈ a.listing d := by
    intro content hcontent
    have hmem : summaryPath a.target (summaryName a.today.format 1) ∈ d :=
      AList.lookup_isSome.mp (by rw [hcontent]; rfl)
    exact hperm.mem_iff.mpr
      (List.mem_map_of_mem (Disk.mem_namesIn.mpr ⟨slash_notMem_summaryName _ _, hmem⟩))
  have hbehind : ∀ best key, IsGreatest (a.listing d) best key →
      key.1 < a.today.format ∨ key.1 = a.today.format ∧ key.2 < u32Max := by
    intro best key hbest
    have hlt := h best key (hperm.mem_iff.mp hbest.listed) hbest.parses
    rwa [Prod.Lex.toLex_lt_toLex] at hlt
  refine ⟨?_, ?_, ?_⟩
  · intro best key _ hbest _ _ hdate
    have hroom : key.2 < u32Max := by
      rcases hbehind best key hbest with hless | ⟨-, hless⟩
      · rw [hdate] at hless
        exact absurd hless (String.lt_irrefl _)
      · exact hless
    exact ⟨hroom, free_next hscans hbest hdate hroom⟩
  · intro best key _ hbest _ _ hdate content hcontent
    -- A first file of today would be greater than the greatest.
    exfalso
    have hearlier : key.1 < a.today.format := by
      rcases hbehind best key hbest with hless | ⟨heq, -⟩
      · exact hless
      · exact absurd heq hdate
    have hne : summaryName a.today.format 1 ≠ best := by
      intro heq
      rw [heq, hbest.parses] at hparses
      exact hdate (congrArg Prod.fst (Option.some.inj hparses))
    have hgreater := hbest.greatest _ _ (hlisted content hcontent) hparses hne
    rw [Prod.Lex.toLex_lt_toLex] at hgreater
    rcases hgreater with hless | ⟨heq, -⟩
    · exact absurd hless (String.lt_asymm hearlier)
    · exact hdate heq.symm
  · intro hnone content hcontent
    have hunparsed := hnone _ (hlisted content hcontent)
    rw [hparses] at hunparsed
    contradiction

theorem canonicalDisk_empty : CanonicalDisk ∅ := by
  intro target name k hname
  rcases List.mem_map.mp hname with ⟨name', hname', -⟩
  exact absurd (Disk.mem_namesIn.mp hname').2 (AList.notMem_empty _)

/-- The disk after a first summary. -/
def firstDay : Disk :=
  (∅ : Disk).insert (summaryPath .global (summaryName may19.format 1)) "x"

/-- The next day's summary, under a cap of one byte, leaves the first one alone. -/
theorem next_day_spares :
    StepsMeet (summaryStep 1) (SparesFull 1) ⟨firstDay, none⟩ [dailySummary may20] := by
  have hcanonical : CanonicalDisk firstDay := by
    apply canonicalDisk_empty.insert (slash_notMem_summaryName may19 1)
    intro k hk
    rw [(parseFilename_written (by decide) hk).2]
  refine (full_files_spared_iff hcanonical _).1.mpr ?_
  intro t _
  refine ⟨roomFor_of_forward ⟨rfl, rfl⟩ (by decide) ?_, trivial⟩
  intro name k hname hk
  have hnames : folderListing firstDay .global = [some (summaryName may19.format 1)] := by
    decide +kernel
  change some name ∈ folderListing firstDay .global at hname
  rw [hnames, List.mem_singleton] at hname
  rw [Option.some.inj hname] at hk
  rw [(parseFilename_written (by decide) hk).2, Prod.Lex.toLex_lt_toLex]
  exact Or.inl (NaiveDate.format_lt (by decide) (by decide) (by decide))

/-- When the clock has stepped back behind a later file, the first file of the day is written
over, full as it is. -/
theorem full_file_replaced :
    ¬ ∀ maxSize s₀ as, CanonicalDisk s₀.disk →
      StepsMeet (summaryStep maxSize) (SparesFull maxSize) s₀ as := by
  intro h
  have hsteps := h 1 ⟨∅, none⟩ [dailySummary may19, dailySummary may20, dailySummary may19]
    canonicalDisk_empty
  have hthird := ((hsteps _ rfl).2 _ rfl).2 _ rfl
  have hspares := hthird.1 "x" (by decide +kernel)
  exact absurd hspares (by decide)

end Memory
end MemoryHub
