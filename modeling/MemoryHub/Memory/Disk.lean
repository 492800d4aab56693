import MemoryHub.Memory.SummaryOrder
import MemoryHub.Memory.Synthesizer

/-!
# A cycle and its surroundings

Storage is a map from paths to contents here, and a folder lists the names of the paths
that begin with it.  What the other actors answer, which call fails, in which order a
folder lists its names and what day it is may depend on everything that has happened in the
cycle before; a script says how.

Main results:

- Definition `CycleScript.handle`: how the surroundings answer a call.
- Theorem `findLatest_exec`: the latest of the summaries a scan gets to see is found.
-/

namespace MemoryHub
namespace Memory

open Collections Llm Prog

/-! ## The disk -/

/-- The content of each path in storage. -/
abbrev Disk :=
  AList fun _ : String => String

namespace Disk

/-- The name a path has in a folder, if it lies directly in it. -/
def nameIn (folder path : String) : Option String :=
  match RustStr.stripPrefix path (folder ++ "/") with
  | none => none
  | some name => if '/' ∈ name.toList then none else some name

/-- The names a folder holds. -/
def namesIn (d : Disk) (folder : String) : List String :=
  d.keys.filterMap (nameIn folder)

theorem nameIn_eq_some {folder path name : String} :
    nameIn folder path = some name ↔ path = folder ++ "/" ++ name ∧ '/' ∉ name.toList := by
  unfold nameIn
  cases hstrip : RustStr.stripPrefix path (folder ++ "/") with
  | none =>
      simp only [reduceCtorEq, false_iff, not_and]
      intro heq
      rw [RustStr.stripPrefix_eq_some.mpr heq] at hstrip
      contradiction
  | some rest =>
      have hpath := RustStr.stripPrefix_eq_some.mp hstrip
      have hrest : rest = name ↔ path = folder ++ "/" ++ name := by
        rw [hpath, String.append_right_inj]
      by_cases hslash : '/' ∈ rest.toList
      · simp only [hslash, if_true, reduceCtorEq, false_iff, not_and, not_not]
        intro hname
        rw [← hrest.mpr hname]
        exact hslash
      · simp only [hslash, if_false, Option.some_inj]
        constructor
        · rintro rfl
          exact ⟨hpath, hslash⟩
        · rintro ⟨hname, -⟩
          exact hrest.mpr hname

/-- A folder holds the names of the paths that lie directly in it. -/
theorem mem_namesIn {d : Disk} {folder name : String} :
    name ∈ d.namesIn folder ↔ '/' ∉ name.toList ∧ folder ++ "/" ++ name ∈ d := by
  simp only [namesIn, List.mem_filterMap, nameIn_eq_some]
  constructor
  · rintro ⟨path, hmem, rfl, hslash⟩
    exact ⟨hslash, AList.mem_keys.mpr hmem⟩
  · rintro ⟨hslash, hmem⟩
    exact ⟨_, AList.mem_keys.mp hmem, rfl, hslash⟩

/-- A folder holds each name once. -/
theorem nodup_namesIn (d : Disk) (folder : String) : (d.namesIn folder).Nodup := by
  apply List.Nodup.filterMap _ d.keys_nodup
  intro p q name hp hq
  rw [Option.mem_def] at hp hq
  rw [(nameIn_eq_some.mp hp).1, (nameIn_eq_some.mp hq).1]

end Disk

/-! ## Surroundings -/

/-- A call, its response, the disk before it, and whether it stored something. -/
structure CycleEvent where
  call : SynthesizerCall
  response : call.Response
  disk : Disk
  stored : Bool

/-- The disk, and what has happened in the cycle so far. -/
structure CycleState where
  disk : Disk
  events : List CycleEvent

/-- How the scan of a folder fails: the folder is not opened, or no more than its first names
are read. -/
inductive ScanFault where
  | unopened
  | cutOff (read : Nat)
deriving DecidableEq, Repr

/-- How the surroundings answer, given what has happened before.  A write that fails may
have taken effect: the flag says so. -/
structure CycleScript where
  listing : List CycleEvent → String → IterationOrder String
  scanFails : List CycleEvent → Option ScanFault
  sizeFails : List CycleEvent → Bool
  today : List CycleEvent → NaiveDate
  readFails : List CycleEvent → Option MemoryError
  writeFails : List CycleEvent → Option (MemoryError × Bool)
  embed : List CycleEvent → List String → Except MemoryError EmbedResult
  synthesize : List CycleEvent → SynthesisTarget → Option String → List SourceDoc →
    Except MemoryError String
  indexFails : List CycleEvent → Option MemoryError

namespace CycleScript

/-- The names a scan of a folder gets to see, unless the folder is not opened. -/
def namesSeen (script : CycleScript) (events : List CycleEvent) (folder : String) (d : Disk) :
    Option (List String) :=
  let names := (script.listing events folder).arrange (d.namesIn folder)
  match script.scanFails events with
  | none => some names
  | some (.cutOff read) => some (names.take read)
  | some .unopened => none

/-- The response to a call, and whether it stores something. -/
def respond (script : CycleScript) (s : CycleState) : (c : SynthesizerCall) → c.Response × Bool
  | .storageRead path =>
      match script.readFails s.events with
      | some e => (.error e, false)
      | none => (.ok (s.disk.lookup path), false)
  | .storageWrite _ _ =>
      match script.writeFails s.events with
      | some (e, stored) => (.error e, stored)
      | none => (.ok (), true)
  | .embed texts => (script.embed s.events texts, false)
  | .synthesize target prior sources => (script.synthesize s.events target prior sources, false)
  | .indexInsert _ =>
      match script.indexFails s.events with
      | some e => (.error e, false)
      | none => (.ok (), false)
  | .readDir folder => ((script.namesSeen s.events folder s.disk).map (List.map some), false)
  | .fileSize path =>
      (if script.sizeFails s.events then none
        else (s.disk.lookup path).map String.utf8ByteSize, false)
  | .today => (script.today s.events, false)

/-- The disk after a call. -/
def effect (d : Disk) (stored : Bool) : SynthesizerCall → Disk
  | .storageWrite path content => if stored then d.insert path content else d
  | _ => d

/-- Answer a call and take note of it. -/
def handle (script : CycleScript) (c : SynthesizerCall) (s : CycleState) :
    c.Response × CycleState :=
  let answer := script.respond s c
  (answer.1, ⟨effect s.disk answer.2 c, s.events ++ [⟨c, answer.1, s.disk, answer.2⟩]⟩)

/-- Run a part of a cycle. -/
def exec {α : Type} (script : CycleScript) (p : Synthesis α) (s : CycleState) : α × CycleState :=
  Prog.exec script.handle p s

end CycleScript

/-- Nothing fails: every target's reply is given, every text gets the same vector, and
folders list their names as they are stored. -/
def CycleScript.quiet (today : NaiveDate) (reply : SynthesisTarget → String) : CycleScript where
  listing _ _ := IterationOrder.stored String
  scanFails _ := none
  sizeFails _ := false
  today _ := today
  readFails _ := none
  writeFails _ := none
  embed _ texts := .ok ⟨"m", texts.map fun _ => ⟨[0x3f800000], Embedding.one_length_lt⟩⟩
  synthesize _ target _ _ := .ok (reply target)
  indexFails _ := none

/-! ## The latest summary -/

/-- The name and size of the latest summary of a folder, as the names are listed. -/
def latestIn (d : Disk) (folder : String) (names : List String) : Option (String × Nat) :=
  match latestName (names.map some) with
  | none => none
  | some name => (d.lookup (folder ++ "/" ++ name)).map fun content => (name, content.utf8ByteSize)

namespace CycleScript

/-- The event of a scan. -/
def scanEvent (script : CycleScript) (events : List CycleEvent) (folder : String) (d : Disk) :
    CycleEvent :=
  ⟨.readDir folder, (script.namesSeen events folder d).map (List.map some), d, false⟩

/-- The names the code goes by after a scan: those it has seen, but none if it cannot read the
size of the latest. -/
def listed (script : CycleScript) (events : List CycleEvent) (folder : String) (d : Disk) :
    List String :=
  if script.sizeFails (events ++ [script.scanEvent events folder d]) then []
  else (script.namesSeen events folder d).getD []

/-- The scan of a folder goes through to the end, and so does reading a size after it. -/
structure Scans (script : CycleScript) (events : List CycleEvent) (folder : String) (d : Disk) :
    Prop where
  names : script.scanFails events = none
  size : script.sizeFails (events ++ [script.scanEvent events folder d]) = false

variable {script : CycleScript} {events : List CycleEvent} {folder : String} {d : Disk}

/-- Nothing but names of the folder is listed, each once. -/
theorem listed_subperm (script : CycleScript) (events : List CycleEvent) (folder : String)
    (d : Disk) : (script.listed events folder d).Subperm (d.namesIn folder) := by
  have hall : ((script.listing events folder).arrange (d.namesIn folder)).Subperm
      (d.namesIn folder) := ((script.listing events folder).perm _).subperm
  unfold listed namesSeen
  split
  · exact List.nil_subperm
  · cases script.scanFails events with
    | none => exact hall
    | some fault =>
        cases fault with
        | unopened => exact List.nil_subperm
        | cutOff read => exact (List.take_sublist read _).subperm.trans hall

/-- A scan that goes through lists all names. -/
theorem Scans.listed_perm (h : script.Scans events folder d) :
    (script.listed events folder d).Perm (d.namesIn folder) := by
  simp only [listed, h.size, Bool.false_eq_true, if_false, namesSeen, h.names, Option.getD_some]
  exact (script.listing events folder).perm _

end CycleScript

theorem latestName_nil : latestName [] = none :=
  rfl

namespace Synthesizer

/-- The scan of a folder finds the latest of the summaries listed, and leaves the disk as it
is. -/
theorem findLatest_exec (script : CycleScript) (folder : String) (s : CycleState) :
    ∃ events, script.exec (findLatestSynthesisFile folder) s =
      (latestIn s.disk folder (script.listed s.events folder s.disk), ⟨s.disk, events⟩) := by
  unfold CycleScript.exec findLatestSynthesisFile latestIn CycleScript.listed CycleScript.scanEvent
  rw [exec_bind]
  simp only [ask, exec_perform, CycleScript.handle, CycleScript.respond, CycleScript.effect]
  cases hseen : script.namesSeen s.events folder s.disk with
  | none =>
      refine ⟨_, Prod.ext ?_ rfl⟩
      simp [latestName_nil]
  | some names =>
      simp only [Option.map_some, Option.getD_some]
      by_cases hsize : script.sizeFails (s.events ++
          [⟨.readDir folder, some (names.map some), s.disk, false⟩]) = true
      · -- Without its size the latest is as good as none.
        simp only [hsize, if_true, List.map_nil, latestName_nil]
        cases latestName (names.map some) with
        | none => exact ⟨_, rfl⟩
        | some name =>
            simp only [exec_bind, exec_perform, CycleScript.handle, CycleScript.respond, hsize,
              if_true, CycleScript.effect]
            exact ⟨_, rfl⟩
      · simp only [hsize, Bool.false_eq_true, if_false]
        cases latestName (names.map some) with
        | none => exact ⟨_, rfl⟩
        | some name =>
            simp only [exec_bind, exec_perform, CycleScript.handle, CycleScript.respond, hsize,
              Bool.false_eq_true, if_false, CycleScript.effect]
            cases s.disk.lookup (folder ++ "/" ++ name) with
            | none => exact ⟨_, rfl⟩
            | some content => exact ⟨_, rfl⟩

/-- The latest summary of a target, among names of its folder, is a file in the folder. -/
theorem latestIn_inFolder {d : Disk} {target : SynthesisTarget} {names : List String}
    {file : String × Nat} (h : latestIn d (synthesisFolder target) names = some file) :
    InFolder target (summaryPath target file.1) ∧
      ∃ content, d.lookup (summaryPath target file.1) = some content := by
  unfold latestIn at h
  cases hlatest : latestName (names.map some) with
  | none => simp [hlatest] at h
  | some name =>
      simp only [hlatest, Option.map_eq_some_iff] at h
      rcases h with ⟨content, hcontent, rfl⟩
      exact ⟨⟨name, (isSummaryName_latestName hlatest).no_slash, rfl⟩, content, hcontent⟩

end Synthesizer

end Memory
end MemoryHub
