import MemoryHub.Lib.Collections
import MemoryHub.Lib.Prog
import MemoryHub.Llm.Embedder
import MemoryHub.Memory.Chunking
import MemoryHub.Memory.SynthesisPath
import Mathlib.Data.String.Basic

/-!
# The synthesizer

Collects notifications of changed files and, when its cool-down timer has run out, folds
them into summaries in three passes: by agent, by user, and of the whole store.  A cycle
is a program whose calls go to the other actors, the clock and the folders of the
targets.

Main results:

- Theorem `process_mustRead`: a cycle reads every changed file.
- Theorem `process_spares`: a cycle writes no raw path.
-/

namespace MemoryHub
namespace Memory

open Collections Llm

/-! ## Calls -/

/-- What a cycle asks of the other actors, the clock and the disk. -/
inductive SynthesizerCall where
  | storageRead (path : String)
  | storageWrite (path content : String)
  | embed (texts : List String)
  | synthesize (target : SynthesisTarget) (priorSummary : Option String)
      (sources : List SourceDoc)
  | indexInsert (msg : IndexInsert)
  | readDir (folder : String)
  | fileSize (path : String)
  | today

namespace SynthesizerCall

/-- What a call is answered with.  A folder lists its names up to the first entry that
cannot be read; a name that is not UTF-8 is `none`. -/
@[reducible]
def Response : SynthesizerCall → Type
  | .storageRead _ => Except MemoryError (Option String)
  | .storageWrite _ _ => Except MemoryError Unit
  | .embed _ => Except MemoryError EmbedResult
  | .synthesize _ _ _ => Except MemoryError String
  | .indexInsert _ => Except MemoryError Unit
  | .readDir _ => Option (List (Option String))
  | .fileSize _ => Option Nat
  | .today => NaiveDate

/-- The call is not a read from storage that failed. -/
def ReadAnswered : (c : SynthesizerCall) → c.Response → Prop
  | .storageRead _, response => ∃ content, response = .ok content
  | _, _ => True

end SynthesizerCall

/-- A part of a cycle. -/
abbrev Synthesis :=
  Prog SynthesizerCall SynthesizerCall.Response

/-- A part of a cycle that may fail. -/
abbrev FallibleSynthesis :=
  ExceptT MemoryError Synthesis

namespace Synthesizer

/-- The configuration a cycle reads. -/
structure MemoryConfig where
  chunkSize : Nat
  chunkOverlap : Nat
  synthesisMaxFileBytes : Nat

/-- The defaults of the configuration. -/
def MemoryConfig.withDefaults : MemoryConfig :=
  ⟨400, 80, 1024 * 1024⟩

/-- Make one call. -/
def ask (c : SynthesizerCall) : Synthesis c.Response :=
  Prog.perform c

def storageRead (path : String) : FallibleSynthesis (Option String) :=
  ExceptT.mk (ask (.storageRead path))

def storageWrite (path content : String) : FallibleSynthesis Unit :=
  ExceptT.mk (ask (.storageWrite path content))

def embed (texts : List String) : FallibleSynthesis EmbedResult :=
  ExceptT.mk (ask (.embed texts))

def requestSynthesis (target : SynthesisTarget) (priorSummary : Option String)
    (sources : List SourceDoc) : FallibleSynthesis String :=
  ExceptT.mk (ask (.synthesize target priorSummary sources))

/-- Index a summary. -/
def indexInsert (path content : String) (chunks : List Chunk) (model : String) :
    FallibleSynthesis Unit :=
  ExceptT.mk (ask
    (.indexInsert ⟨path, "synthesized", UInt64.ofNat content.utf8ByteSize, model, chunks⟩))

/-! ## Files of a target -/

/-- The name and size of the latest summary in a folder. -/
def findLatestSynthesisFile (folder : String) : Synthesis (Option (String × Nat)) := do
  match ← ask (.readDir folder) with
  | none => return none
  | some names =>
      match latestName names with
      | none => return none
      | some name =>
          match ← ask (.fileSize (folder ++ "/" ++ name)) with
          | none => return none
          | some size => return some (name, size)

/-- The path of the latest summary for a target. -/
def getLatestSynthesisFile (target : SynthesisTarget) : Synthesis (Option String) := do
  let latest ← findLatestSynthesisFile (synthesisFolder target)
  return latest.map fun file => summaryPath target file.1

/-- The path the next summary for a target goes to. -/
def currentSynthesisPath (target : SynthesisTarget) (today : NaiveDate) (maxSize : Nat) :
    Synthesis String := do
  let latest ← findLatestSynthesisFile (synthesisFolder target)
  return summaryPath target (candidateName latest today.format maxSize)

/-! ## The passes -/

/-- Chunk, embed, and write a summary to storage and index; nothing for an empty one. -/
def writeSynthesis (config : MemoryConfig) (path content : String) : FallibleSynthesis Unit :=
  let textChunks := chunkText content config.chunkSize config.chunkOverlap
  if textChunks.isEmpty then pure ()
  else do
    storageWrite path content
    let embedResult ← embed (textChunks.map TextChunk.text)
    let chunks : List Chunk := (textChunks.zip embedResult.embeddings).map fun c =>
      ⟨c.1.text, c.1.startLine, c.1.endLine, c.2⟩
    indexInsert path content chunks embedResult.model

/-- The summary a target has so far. -/
def priorSummary (target : SynthesisTarget) : FallibleSynthesis (Option String) := do
  match ← ExceptT.lift (getLatestSynthesisFile target) with
  | some path => storageRead path
  | none => return none

/-- The end of each pass: fold the sources into the target's summary and write it. -/
def foldSources (config : MemoryConfig) (target : SynthesisTarget) (sources : List SourceDoc) :
    FallibleSynthesis Unit := do
  let prior ← priorSummary target
  let synthesis ← requestSynthesis target prior sources
  let today ← ExceptT.lift (ask .today)
  let path ← ExceptT.lift (currentSynthesisPath target today config.synthesisMaxFileBytes)
  writeSynthesis config path synthesis

/-- The loop over an agent's changed files: those in storage are sources, the others
have been deleted. -/
def readChanged : List String → List SourceDoc → List String →
    FallibleSynthesis (List SourceDoc × List String)
  | [], sources, deleted => return (sources, deleted)
  | file :: files, sources, deleted => do
      match ← storageRead file with
      | some content => readChanged files (sources ++ [⟨file, content⟩]) deleted
      | none => readChanged files sources (deleted ++ [file])

/-- The source that lists the deleted files. -/
def deletedSources (deleted : List String) : SourceDoc :=
  ⟨"_deleted_sources",
    "The following memory files were deleted. Remove any content in the running summary " ++
      "that was sourced from them, and do not reference them going forward:\n" ++
      String.intercalate "\n" deleted⟩

/-- Pass 1: fold an agent's changed raw files into its summary. -/
def synthesizeAgent (config : MemoryConfig) (username : String) (agentId : Uuid)
    (changedFiles : Finset String) : FallibleSynthesis Bool := do
  let (sources, deleted) ← readChanged changedFiles.sort [] []
  if sources.isEmpty && deleted.isEmpty then return false
  else
    let all := if deleted.isEmpty then sources else sources ++ [deletedSources deleted]
    foldSources config (.agent username agentId.hyphenated) all
    return true

/-- The loop over changed targets: their latest summaries are the sources. -/
def readSummaries : List SynthesisTarget → List SourceDoc → FallibleSynthesis (List SourceDoc)
  | [], sources => return sources
  | target :: targets, sources => do
      match ← ExceptT.lift (getLatestSynthesisFile target) with
      | none => readSummaries targets sources
      | some path =>
          match ← storageRead path with
          | some content => readSummaries targets (sources ++ [⟨path, content⟩])
          | none => readSummaries targets sources

/-- Pass 2: fold the changed agents' summaries into the user's summary. -/
def synthesizeUser (config : MemoryConfig) (username : String) (agentIds : Finset Uuid) :
    FallibleSynthesis Bool := do
  let sources ← readSummaries
    (agentIds.sort.map fun agentId => .agent username agentId.hyphenated) []
  if sources.isEmpty then return false
  else
    foldSources config (.user username) sources
    return true

/-- Pass 3: fold the changed users' summaries into the global summary. -/
def synthesizeGlobal (config : MemoryConfig) (changedUsers : Finset String) :
    FallibleSynthesis Unit := do
  let sources ← readSummaries (changedUsers.sort.map .user) []
  if sources.isEmpty then return ()
  else foldSources config .global sources

/-- The orders in which a cycle iterates its hash maps and its hash set. -/
structure CycleOrders where
  changedFiles : IterationOrder FileChanged
  fileGroups : IterationOrder (Σ _ : String × Uuid, Finset String)
  agentGroups : IterationOrder (Σ _ : String, Finset Uuid)

/-- The loop of pass 1: the agents whose synthesis succeeded. -/
def agentPass (config : MemoryConfig) : List (Σ _ : String × Uuid, Finset String) →
    Groups String Uuid → Synthesis (Groups String Uuid)
  | [], agentGroups => return agentGroups
  | ⟨(username, agentId), changedFiles⟩ :: rest, agentGroups => do
      match ← (synthesizeAgent config username agentId changedFiles).run with
      | .ok true => agentPass config rest (agentGroups.add username agentId)
      | .ok false => agentPass config rest agentGroups
      | .error _ => agentPass config rest agentGroups

/-- The loop of pass 2: the users whose synthesis succeeded. -/
def userPass (config : MemoryConfig) : List (Σ _ : String, Finset Uuid) → Finset String →
    Synthesis (Finset String)
  | [], users => return users
  | ⟨username, agentIds⟩ :: rest, users => do
      match ← (synthesizeUser config username agentIds).run with
      | .ok true => userPass config rest (insert username users)
      | .ok false => userPass config rest users
      | .error _ => userPass config rest users

/-- The changed files of each agent. -/
def fileGroups (changedFiles : List FileChanged) : Groups (String × Uuid) String :=
  Groups.group (fun file => (file.username, file.agentId)) FileChanged.path changedFiles

/-- `process`, from where the changed files have been taken. -/
def process (config : MemoryConfig) (orders : CycleOrders) (changedFiles : List FileChanged) :
    Synthesis Unit :=
  if changedFiles.isEmpty then pure ()
  else do
    let groups := fileGroups (orders.changedFiles.arrange changedFiles)
    let agentGroups ← agentPass config (orders.fileGroups.arrange groups.entries) ∅
    let users ← userPass config (orders.agentGroups.arrange agentGroups.entries) ∅
    if users = ∅ then return ()
    else
      match ← (synthesizeGlobal config users).run with
      | .ok () => return ()
      | .error _ => return ()

end Synthesizer

/-! ## The actor -/

/-- The state of the synthesizer. -/
structure Synthesizer where
  changedFiles : List FileChanged
  timerArmed : Bool
deriving DecidableEq, Repr

namespace Synthesizer

/-- `Synthesizer::new`. -/
def new : Synthesizer :=
  ⟨[], false⟩

/-- `Handler<FileChanged>`; the flag says whether a timer is started. -/
def handleFileChanged (s : Synthesizer) (msg : FileChanged) : Synthesizer × Bool :=
  let s := { s with changedFiles := s.changedFiles.insert msg }
  if !s.timerArmed then ({ s with timerArmed := true }, true) else (s, false)

/-- `Handler<CooldownTick>`: the cycle is still to run. -/
def handleCooldownTick (config : MemoryConfig) (orders : CycleOrders) (s : Synthesizer) :
    Synthesizer × Synthesis Unit :=
  let s := { s with timerArmed := false }
  ({ s with changedFiles := [] }, process config orders s.changedFiles)

/-! ## What the parts of a cycle read and write -/

open Prog SynthesizerCall

/-- The path lies directly in the target's folder. -/
def InFolder (target : SynthesisTarget) (path : String) : Prop :=
  ∃ name : String, '/' ∉ name.toList ∧ path = summaryPath target name

/-- The path of a summary of the target. -/
def IsSummaryPath (target : SynthesisTarget) (path : String) : Prop :=
  ∃ name, IsSummaryName name ∧ path = summaryPath target name

theorem IsSummaryPath.inFolder {target : SynthesisTarget} {path : String}
    (h : IsSummaryPath target path) : InFolder target path := by
  rcases h with ⟨name, hname, rfl⟩
  exact ⟨name, hname.no_slash, rfl⟩

/-- A call of a part that works for the target: it reads only what is readable, asks only for
the target's synthesis, and writes only to its folder. -/
def WorksFor (readable : String → Prop) (target : SynthesisTarget) : SynthesizerCall → Prop
  | .storageRead path => readable path
  | .storageWrite path _ => InFolder target path
  | .embed _ => True
  | .synthesize asked _ _ => asked = target
  | .indexInsert msg => InFolder target msg.path
  | .readDir folder => ∀ name : String, '/' ∉ name.toList → readable (folder ++ "/" ++ name)
  | .fileSize path => readable path
  | .today => True

/-- A call of a part that serves the target: it works for the target, and what it writes is a
summary. -/
def Serves (readable : String → Prop) (target : SynthesisTarget) (c : SynthesizerCall) : Prop :=
  WorksFor readable target c ∧ ∀ path content, c = .storageWrite path content →
    IsSummaryPath target path

/-- A call that only looks: at what is readable, or at the clock. -/
def Looks (readable : String → Prop) : SynthesizerCall → Prop
  | .storageRead path => readable path
  | .readDir folder => ∀ name : String, '/' ∉ name.toList → readable (folder ++ "/" ++ name)
  | .fileSize path => readable path
  | .today => True
  | _ => False

/-- Looking serves any target. -/
theorem Looks.serves {readable : String → Prop} {c : SynthesizerCall} (h : Looks readable c)
    (target : SynthesisTarget) : Serves readable target c := by
  constructor
  · cases c with
    | storageRead path => exact h
    | readDir folder => exact h
    | fileSize path => exact h
    | today => exact h
    | storageWrite path content => exact absurd h id
    | embed texts => exact absurd h id
    | synthesize asked prior sources => exact absurd h id
    | indexInsert msg => exact absurd h id
  · rintro path content rfl
    exact absurd h id

section

variable {ok : ∀ c : SynthesizerCall, c.Response → Prop} {readable : String → Prop}
  {target : SynthesisTarget}

theorem ask_meets {P : SynthesizerCall → Prop} {c : SynthesizerCall} (h : P c) :
    Meets ok P (fun _ => True) (ask c) :=
  meets_perform h fun _ _ => trivial

theorem serves_of_looks {α : Type} {Q : α → Prop} {p : Synthesis α}
    (h : Meets ok (Looks readable) Q p) : Meets ok (Serves readable target) Q p :=
  h.mono (fun _ _ hr => hr) (fun _ hc => hc.serves target) fun _ ha => ha

theorem worksFor_of_serves {α : Type} {Q : α → Prop} {p : Synthesis α}
    (h : Meets ok (Serves readable target) Q p) : Meets ok (WorksFor readable target) Q p :=
  h.mono (fun _ _ hr => hr) (fun _ hc => hc.1) fun _ ha => ha

theorem storageRead_looks {path : String} (h : readable path) :
    MeetsOk ok (Looks readable) (fun _ => True) (storageRead path) :=
  ⟨h, fun _ _ _ _ => trivial⟩

/-- A folder's latest summary is called as a summary. -/
theorem findLatestSynthesisFile_looks {folder : String}
    (hfolder : ∀ name : String, '/' ∉ name.toList → readable (folder ++ "/" ++ name)) :
    Meets ok (Looks readable)
      (fun latest => ∀ file, latest = some file → IsSummaryName file.1)
      (findLatestSynthesisFile folder) := by
  apply Meets.bind (ask_meets (c := .readDir folder) hfolder)
  intro names _
  cases names with
  | none => exact meets_pure (by simp)
  | some names =>
      cases hname : latestName names with
      | none =>
          simp only [hname]
          exact meets_pure (by simp)
      | some name =>
          simp only [hname]
          have hsummary := isSummaryName_latestName hname
          apply Meets.bind (ask_meets (c := .fileSize (folder ++ "/" ++ name))
            (hfolder name hsummary.no_slash))
          intro size _
          cases size with
          | none => exact meets_pure (by simp)
          | some size =>
              apply meets_pure
              intro file hfile
              cases hfile
              exact hsummary

/-- The latest summary of a target lies in its folder. -/
theorem getLatestSynthesisFile_looks {asked : SynthesisTarget}
    (hfolder : ∀ path, InFolder asked path → readable path) :
    Meets ok (Looks readable)
      (fun latest => ∀ path, latest = some path → InFolder asked path)
      (getLatestSynthesisFile asked) := by
  apply Meets.bind (findLatestSynthesisFile_looks fun name hname =>
    hfolder _ ⟨name, hname, rfl⟩)
  intro latest hlatest
  apply meets_pure
  intro path hpath
  rcases Option.map_eq_some_iff.mp hpath with ⟨file, hfile, rfl⟩
  exact ⟨file.1, (hlatest file hfile).no_slash, rfl⟩

/-- The next summary goes to the target's folder. -/
theorem currentSynthesisPath_looks (hfolder : ∀ path, InFolder target path → readable path)
    (today : NaiveDate) (maxSize : Nat) :
    Meets ok (Looks readable) (IsSummaryPath target)
      (currentSynthesisPath target today maxSize) := by
  apply Meets.bind (findLatestSynthesisFile_looks fun name hname =>
    hfolder _ ⟨name, hname, rfl⟩)
  intro latest hlatest
  exact ⟨_, isSummaryName_candidateName hlatest (isPlain_format today) maxSize, rfl⟩

theorem writeSynthesis_meets {P : SynthesizerCall → Prop} (config : MemoryConfig)
    {path content : String} (hwrite : P (.storageWrite path content))
    (hembed : ∀ texts, P (.embed texts))
    (hindex : ∀ msg : IndexInsert, msg.path = path → P (.indexInsert msg)) :
    MeetsOk ok P (fun _ => True) (writeSynthesis config path content) := by
  unfold writeSynthesis
  dsimp only
  split
  · exact meetsOk_pure trivial
  · refine MeetsOk.bind (Q := fun _ => True) ⟨hwrite, fun _ _ _ _ => trivial⟩ ?_
    intro _ _
    refine MeetsOk.bind (Q := fun _ => True) ⟨hembed _, fun _ _ _ _ => trivial⟩ ?_
    intro embedResult _
    exact ⟨hindex _ rfl, fun _ _ _ _ => trivial⟩

theorem writeSynthesis_serves (config : MemoryConfig) {path : String}
    (hpath : IsSummaryPath target path) (content : String) :
    MeetsOk ok (Serves readable target) (fun _ => True)
      (writeSynthesis config path content) := by
  refine writeSynthesis_meets config ⟨hpath.inFolder, ?_⟩ (fun _ => ⟨trivial, by simp⟩) ?_
  · rintro _ _ ⟨⟩
    exact hpath
  · rintro msg rfl
    exact ⟨hpath.inFolder, by simp⟩

theorem priorSummary_looks (hfolder : ∀ path, InFolder target path → readable path) :
    MeetsOk ok (Looks readable) (fun _ => True) (priorSummary target) := by
  apply MeetsOk.bind (meetsOk_lift (getLatestSynthesisFile_looks hfolder))
  intro latest hlatest
  cases latest with
  | none => exact meetsOk_pure trivial
  | some path => exact storageRead_looks (hfolder path (hlatest path rfl))

theorem foldSources_serves (hfolder : ∀ path, InFolder target path → readable path)
    (config : MemoryConfig) (sources : List SourceDoc) :
    MeetsOk ok (Serves readable target) (fun _ => True)
      (foldSources config target sources) := by
  apply MeetsOk.bind (serves_of_looks (priorSummary_looks hfolder))
  intro prior _
  refine MeetsOk.bind (Q := fun _ => True) ⟨⟨rfl, by simp⟩, fun _ _ _ _ => trivial⟩ ?_
  intro synthesis _
  refine MeetsOk.bind (meetsOk_lift (ask_meets ⟨trivial, by simp⟩)) ?_
  intro today _
  apply MeetsOk.bind (meetsOk_lift
    (serves_of_looks (currentSynthesisPath_looks hfolder today _)))
  intro path hpath
  exact writeSynthesis_serves config hpath synthesis

theorem readChanged_looks {files : List String} (hfiles : ∀ file ∈ files, readable file)
    (sources : List SourceDoc) (deleted : List String) :
    MeetsOk ok (Looks readable) (fun _ => True)
      (readChanged files sources deleted) := by
  induction files generalizing sources deleted with
  | nil => exact meetsOk_pure trivial
  | cons file files ih =>
      have hrest : ∀ file ∈ files, readable file := fun f hf => hfiles f (List.mem_cons_of_mem _ hf)
      apply MeetsOk.bind (storageRead_looks (hfiles file List.mem_cons_self))
      intro content _
      cases content with
      | none => exact ih hrest _ _
      | some content => exact ih hrest _ _

theorem readSummaries_looks {targets : List SynthesisTarget}
    (htargets : ∀ asked ∈ targets, ∀ path, InFolder asked path → readable path)
    (sources : List SourceDoc) :
    MeetsOk ok (Looks readable) (fun _ => True) (readSummaries targets sources) := by
  induction targets generalizing sources with
  | nil => exact meetsOk_pure trivial
  | cons first targets ih =>
      have hrest : ∀ asked ∈ targets, ∀ path, InFolder asked path → readable path :=
        fun asked hasked => htargets asked (List.mem_cons_of_mem _ hasked)
      have hfirst := htargets first List.mem_cons_self
      apply MeetsOk.bind (meetsOk_lift (getLatestSynthesisFile_looks hfirst))
      intro latest hlatest
      cases latest with
      | none => exact ih hrest _
      | some path =>
          apply MeetsOk.bind (storageRead_looks (hfirst path (hlatest path rfl)))
          intro content _
          cases content with
          | none => exact ih hrest _
          | some content => exact ih hrest _

/-- Pass 1 serves the agent: it reads its changed files and its summaries. -/
theorem synthesizeAgent_serves (config : MemoryConfig) (username : String) (agentId : Uuid)
    {changedFiles : Finset String} (hfiles : ∀ file ∈ changedFiles, readable file)
    (hfolder : ∀ path, InFolder (.agent username agentId.hyphenated) path → readable path) :
    MeetsOk ok (Serves readable (.agent username agentId.hyphenated)) (fun _ => True)
      (synthesizeAgent config username agentId changedFiles) := by
  apply MeetsOk.bind (serves_of_looks (readChanged_looks (fun file hfile =>
    hfiles file ((Finset.mem_sort _).mp hfile)) [] []))
  intro files _
  dsimp only
  split
  · exact meetsOk_pure trivial
  · apply MeetsOk.bind (foldSources_serves hfolder config _)
    intro _ _
    exact meetsOk_pure trivial

/-- Pass 2 serves the user: it reads its agents' summaries and its own. -/
theorem synthesizeUser_serves (config : MemoryConfig) (username : String)
    {agentIds : Finset Uuid}
    (hagents : ∀ agentId ∈ agentIds, ∀ path,
      InFolder (.agent username agentId.hyphenated) path → readable path)
    (hfolder : ∀ path, InFolder (.user username) path → readable path) :
    MeetsOk ok (Serves readable (.user username)) (fun _ => True)
      (synthesizeUser config username agentIds) := by
  have htargets : ∀ asked ∈ agentIds.sort.map fun agentId =>
      SynthesisTarget.agent username agentId.hyphenated,
        ∀ path, InFolder asked path → readable path := by
    intro asked hasked
    rcases List.mem_map.mp hasked with ⟨agentId, hagent, rfl⟩
    exact hagents agentId ((Finset.mem_sort _).mp hagent)
  apply MeetsOk.bind (serves_of_looks (readSummaries_looks htargets []))
  intro sources _
  split
  · exact meetsOk_pure trivial
  · apply MeetsOk.bind (foldSources_serves hfolder config sources)
    intro _ _
    exact meetsOk_pure trivial

/-- Pass 3 serves the whole store: it reads the users' summaries and its own. -/
theorem synthesizeGlobal_serves (config : MemoryConfig) {changedUsers : Finset String}
    (husers : ∀ username ∈ changedUsers, ∀ path, InFolder (.user username) path → readable path)
    (hfolder : ∀ path, InFolder .global path → readable path) :
    MeetsOk ok (Serves readable .global) (fun _ => True)
      (synthesizeGlobal config changedUsers) := by
  have htargets : ∀ asked ∈ changedUsers.sort.map SynthesisTarget.user,
      ∀ path, InFolder asked path → readable path := by
    intro asked hasked
    rcases List.mem_map.mp hasked with ⟨username, huser, rfl⟩
    exact husers username ((Finset.mem_sort _).mp huser)
  apply MeetsOk.bind (serves_of_looks (readSummaries_looks htargets []))
  intro sources _
  split
  · exact meetsOk_pure trivial
  · exact foldSources_serves hfolder config sources

end

/-! ## What the passes call -/

section

variable {ok : ∀ c : SynthesizerCall, c.Response → Prop} {P : SynthesizerCall → Prop}

/-- Pass 1 calls what its agents' parts call. -/
theorem agentPass_meets {config : MemoryConfig}
    {entries : List (Σ _ : String × Uuid, Finset String)}
    (hparts : ∀ entry ∈ entries, Meets ok P (fun _ => True)
      (synthesizeAgent config entry.1.1 entry.1.2 entry.2).run)
    (agentGroups : Groups String Uuid) :
    Meets ok P (fun _ => True) (agentPass config entries agentGroups) := by
  induction entries generalizing agentGroups with
  | nil => trivial
  | cons entry rest ih =>
      have hrest := ih fun entry hentry => hparts entry (List.mem_cons_of_mem _ hentry)
      apply Meets.bind (hparts entry List.mem_cons_self)
      intro result _
      match result with
      | .ok true => exact hrest _
      | .ok false => exact hrest _
      | .error _ => exact hrest _

/-- Pass 2 calls what its users' parts call. -/
theorem userPass_meets {config : MemoryConfig} {entries : List (Σ _ : String, Finset Uuid)}
    (hparts : ∀ entry ∈ entries, Meets ok P (fun _ => True)
      (synthesizeUser config entry.1 entry.2).run) (users : Finset String) :
    Meets ok P (fun _ => True) (userPass config entries users) := by
  induction entries generalizing users with
  | nil => trivial
  | cons entry rest ih =>
      have hrest := ih fun entry hentry => hparts entry (List.mem_cons_of_mem _ hentry)
      apply Meets.bind (hparts entry List.mem_cons_self)
      intro result _
      match result with
      | .ok true => exact hrest _
      | .ok false => exact hrest _
      | .error _ => exact hrest _

/-- A cycle only makes calls that serve some target. -/
theorem process_meets (hP : ∀ target c, Serves (fun _ => True) target c → P c)
    (config : MemoryConfig) (orders : CycleOrders) (changedFiles : List FileChanged) :
    Meets ok P (fun _ => True) (process config orders changedFiles) := by
  have hpart : ∀ (α : Type) (target : SynthesisTarget) (x : FallibleSynthesis α),
      MeetsOk ok (Serves (fun _ => True) target) (fun _ => True) x →
        Meets ok P (fun _ => True) x.run :=
    fun α target x h => h.mono (fun _ _ hr => hr) (hP target) fun _ _ => trivial
  unfold process
  split
  · trivial
  · refine Meets.bind (agentPass_meets (fun entry _ => ?_) ∅) ?_
    · exact hpart _ _ _ (synthesizeAgent_serves config _ _ (by simp) (by simp))
    · intro agentGroups _
      refine Meets.bind (userPass_meets (fun entry _ => ?_) ∅) ?_
      · exact hpart _ _ _ (synthesizeUser_serves config _ (by simp) (by simp))
      · intro users _
        split
        · trivial
        · apply Meets.bind (hpart _ _ _ (synthesizeGlobal_serves config (by simp) (by simp)))
          intro result _
          cases result with
          | ok _ => trivial
          | error _ => trivial

end

/-- The call writes no raw path. -/
def SparesRaw : SynthesizerCall → Prop
  | .storageWrite path _ => ¬ IsRawKey path
  | _ => True

/-- The part writes no raw path, and what it returns meets `Q`. -/
abbrev Spares {α : Type} (Q : α → Prop) (p : Synthesis α) : Prop :=
  Meets ReadAnswered SparesRaw Q p

/-- A folder of summaries holds no raw path. -/
theorem sparesRaw_of_worksFor {readable : String → Prop} {target : SynthesisTarget}
    {c : SynthesizerCall} (h : WorksFor readable target c) : SparesRaw c := by
  cases c with
  | storageWrite path content =>
      rcases h with ⟨name, hname, rfl⟩
      exact not_isRawKey_summaryPath target hname
  | storageRead path => trivial
  | embed texts => trivial
  | synthesize asked prior sources => trivial
  | indexInsert msg => trivial
  | readDir folder => trivial
  | fileSize path => trivial
  | today => trivial

/-- A cycle writes no raw path. -/
theorem process_spares (config : MemoryConfig) (orders : CycleOrders)
    (changedFiles : List FileChanged) :
    Spares (fun _ => True) (process config orders changedFiles) :=
  process_meets (fun _ _ hc => sparesRaw_of_worksFor hc.1) config orders changedFiles

/-! ## What a cycle reads -/

/-- The part is sure to read the file, as long as reads do not fail. -/
abbrev MustRead {α : Type} (file : String) (p : Synthesis α) : Prop :=
  MustCall ReadAnswered (.storageRead file) p

theorem readChanged_mustRead {files : List String} {file : String} (hfile : file ∈ files)
    (sources : List SourceDoc) (deleted : List String) :
    MustRead file (readChanged files sources deleted).run := by
  induction files generalizing sources deleted with
  | nil => simp at hfile
  | cons first files ih =>
      rcases List.mem_cons.mp hfile with heq | hrest
      · rw [heq]
        exact mustCall_perform.run_bind (x := storageRead first) _
      · have hread : Meets ReadAnswered (fun _ => True) (fun r => ∃ content, r = .ok content)
            (storageRead first).run :=
          ⟨trivial, fun r hr => hr⟩
        apply Meets.mustCall_bind hread
        intro result hresult
        rcases hresult with ⟨content, rfl⟩
        cases content with
        | none => exact ih hrest _ _
        | some content => exact ih hrest _ _

theorem synthesizeAgent_mustRead (config : MemoryConfig) (username : String) (agentId : Uuid)
    {changedFiles : Finset String} {file : String} (hfile : file ∈ changedFiles) :
    MustRead file (synthesizeAgent config username agentId changedFiles).run := by
  have hsorted : file ∈ changedFiles.sort := (Finset.mem_sort _).mpr hfile
  exact (readChanged_mustRead hsorted [] []).run_bind _

/-- Pass 1 reads the files of every agent, whatever becomes of the others. -/
theorem agentPass_mustRead (config : MemoryConfig)
    {entries : List (Σ _ : String × Uuid, Finset String)}
    {entry : Σ _ : String × Uuid, Finset String} (hentry : entry ∈ entries) {file : String}
    (hfile : file ∈ entry.2) (agentGroups : Groups String Uuid) :
    MustRead file (agentPass config entries agentGroups) := by
  induction entries generalizing agentGroups with
  | nil => simp at hentry
  | cons first rest ih =>
      rcases first with ⟨⟨username, agentId⟩, changedFiles⟩
      rcases List.mem_cons.mp hentry with heq | hrest
      · rw [heq] at hfile
        exact (synthesizeAgent_mustRead config username agentId hfile).bind _
      · apply (meets_true _).mustCall_bind
        intro result _
        match result with
        | .ok true => exact ih hrest _
        | .ok false => exact ih hrest _
        | .error _ => exact ih hrest _

/-- A cycle reads every changed file. -/
theorem process_mustRead (config : MemoryConfig) (orders : CycleOrders)
    {changedFiles : List FileChanged} {file : FileChanged} (hfile : file ∈ changedFiles) :
    MustRead file.path (process config orders changedFiles) := by
  have hne : ¬ changedFiles.isEmpty := by
    rw [List.isEmpty_iff]
    exact List.ne_nil_of_mem hfile
  unfold process
  rw [if_neg hne]
  have hmember : file.path ∈ (fileGroups (orders.changedFiles.arrange changedFiles)).members
      (file.username, file.agentId) :=
    Groups.mem_members_group.mpr ⟨file, (IterationOrder.mem_arrange _).mpr hfile, rfl, rfl⟩
  rcases Groups.exists_entry_of_mem_members hmember with ⟨paths, hentry, hpath⟩
  have harranged := (IterationOrder.mem_arrange orders.fileGroups).mpr hentry
  exact (agentPass_mustRead config harranged hpath ∅).bind _

end Synthesizer

end Memory
end MemoryHub
