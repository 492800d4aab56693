import MemoryHub.Lib.Machine
import MemoryHub.Memory.DiskStorage
import MemoryHub.Memory.FileOp

/-!
# Stored and indexed summaries

The write of a summary stores it first and embeds and indexes it afterwards, and the file of
a target is written again in cycle after cycle.  A step that fails in between leaves the new
text beside the old entry.

Main results:

- Theorem `exec_images`: what one write of a summary does to the disk and to the map of entries,
  whichever of its steps fail.
- Theorem `describes_throughout_iff`: the index describes the stored summaries throughout a run
  of writes exactly if no write of the run that has replaced an indexed text ends before the
  new entry is in, unless the new text has the chunks of the old one.
- Theorem `stale_entry`: an overwrite whose embedding fails.
-/

namespace MemoryHub
namespace Memory

open FileSystem Llm Machine Prog

/-! ## Writes of summaries -/

/-- The state of storage and index. -/
structure SummaryStore where
  fs : Fs
  db : IndexDb

/-- What happens to the messages of one write of a summary.  Of the calls of a cycle it makes
three; whatever the others are answered plays no part. -/
structure SummaryScript where
  storage : Delivery
  storageFault : Option StorageFault
  embed : Delivery
  response : Except LlmError EmbedResult
  embeddingDim : Option Nat
  index : Delivery
  now : Int
  indexFault : Option IndexFault
  others : (c : SynthesizerCall) → c.Response

/-- The actors' answer to a call. -/
def SummaryScript.handle (script : SummaryScript) :
    (c : SynthesizerCall) → SummaryStore → c.Response × SummaryStore
  | .storageWrite path content, s =>
      if script.storage.handled then
        match Memory.storageWrite s.fs path content script.storageFault with
        | (r, fs) => (propagate .storage (script.storage.receive r), { s with fs := fs })
      else (propagate .storage (script.storage.receive (.ok ())), s)
  | .embed texts, s =>
      (propagate .llm (script.embed.receive
        (Llm.embed texts script.embeddingDim script.response)), s)
  | .indexInsert msg, s =>
      if script.index.handled then
        match handleInsert s.db msg script.now script.indexFault with
        | (r, db) => (propagate .indexer (script.index.receive r), { s with db := db })
      else (propagate .indexer (script.index.receive (.ok ())), s)
  | c, s => (script.others c, s)

/-- A call of `write_synthesis`, on a file of a target. -/
structure SummaryCall where
  target : SynthesisTarget
  name : String
  content : String
  script : SummaryScript
  isTarget : IsTarget target
  isSummaryName : IsSummaryName name

namespace SummaryCall

variable (config : Synthesizer.MemoryConfig) (a : SummaryCall)

/-- The path `current_synthesis_path` has returned. -/
def path : String :=
  summaryPath a.target a.name

/-- The file the call writes. -/
def file : StoredFile :=
  .summary a.target a.name

theorem valid_file : a.file.Valid :=
  ⟨a.isTarget, a.isSummaryName⟩

/-- Run the call. -/
def exec (s : SummaryStore) : Except MemoryError Unit × SummaryStore :=
  Prog.exec a.script.handle (Synthesizer.writeSynthesis config a.path a.content).run s

/-- The chunks of the content. -/
def textChunks : List TextChunk :=
  chunkText a.content config.chunkSize config.chunkOverlap

/-- What the embedding comes to. -/
def embedResult : Except MemoryError EmbedResult :=
  propagate .llm (a.script.embed.receive
    (Llm.embed ((a.textChunks config).map TextChunk.text) a.script.embeddingDim a.script.response))

/-- The index message, with the vectors that have been returned. -/
def insert (r : EmbedResult) : IndexInsert :=
  ⟨a.path, "synthesized", UInt64.ofNat a.content.utf8ByteSize, r.model,
    ((a.textChunks config).zip r.embeddings).map fun c =>
      ⟨c.1.text, c.1.startLine, c.1.endLine, c.2⟩⟩

/-- The content is stored: there is something to write, and storage takes it. -/
def Stores (s : SummaryStore) : Prop :=
  a.textChunks config ≠ [] ∧ a.script.storage.handled = true ∧
    (storageWrite s.fs a.path a.content a.script.storageFault).1 = .ok ()

/-- After the content has been stored, its entry is put in the index: storage replies, the
content is embedded, and the index takes the entry. -/
def Indexes (s : SummaryStore) : Prop :=
  a.script.storage = .answered ∧ ∃ r, a.embedResult config = .ok r ∧
    a.script.index.handled = true ∧
      (handleInsert s.db (a.insert config r) a.script.now a.script.indexFault).1 = .ok ()

instance (s : SummaryStore) : Decidable (a.Stores config s) :=
  inferInstanceAs (Decidable (_ ∧ _))

instance (s : SummaryStore) : Decidable (a.Indexes config s) :=
  match h : a.embedResult config with
  | .error e => isFalse (by simp [Indexes, h])
  | .ok r =>
      decidable_of_iff (a.script.storage = .answered ∧ a.script.index.handled = true ∧
        (handleInsert s.db (a.insert config r) a.script.now a.script.indexFault).1 = .ok ())
        (by simp [Indexes, h])

end SummaryCall

/-! ## What one write does -/

namespace SummaryScript

variable {script : SummaryScript} {s t : SummaryStore}

/-- The storage message leaves the index alone; without an error, it has stored the content. -/
theorem handle_storageWrite {path content : String} {r : Except MemoryError Unit}
    (h : script.handle (.storageWrite path content) s = (r, t)) :
    t.db = s.db ∧
      ((script.storage.handled = false ∧ t.fs = s.fs ∧ r ≠ .ok ()) ∨
        (script.storage.handled = true ∧ ∃ result,
          storageWrite s.fs path content script.storageFault = (result, t.fs) ∧
            (r = .ok () ↔ script.storage = .answered ∧ result = .ok ()))) := by
  rcases hcall : storageWrite s.fs path content script.storageFault with ⟨result, fs⟩
  simp only [handle, hcall] at h
  split at h <;> rename_i hhandled
  · cases h
    exact ⟨rfl, Or.inr ⟨hhandled, result, rfl, propagate_receive_eq_ok⟩⟩
  · cases h
    refine ⟨rfl, Or.inl ⟨by simpa using hhandled, rfl, ?_⟩⟩
    intro hok
    exact hhandled (handled_of_propagate hok)

/-- The index message leaves storage alone. -/
theorem handle_indexInsert {msg : IndexInsert} {r : Except MemoryError Unit}
    (h : script.handle (.indexInsert msg) s = (r, t)) :
    t.fs = s.fs ∧
      ((script.index.handled = false ∧ t.db = s.db) ∨
        (script.index.handled = true ∧ ∃ result,
          handleInsert s.db msg script.now script.indexFault = (result, t.db))) := by
  unfold handle at h
  simp only at h
  split at h <;> rename_i hhandled
  · cases h
    exact ⟨rfl, Or.inr ⟨hhandled, _, rfl⟩⟩
  · cases h
    exact ⟨rfl, Or.inl ⟨by simpa using hhandled, rfl⟩⟩

end SummaryScript

namespace SummaryCall

variable {config : Synthesizer.MemoryConfig} {a : SummaryCall} {s t : SummaryStore}

/-- The steps of a write that is not skipped. -/
theorem exec_eq (hsome : a.textChunks config ≠ []) :
    a.exec config s =
      match a.script.handle (.storageWrite a.path a.content) s with
      | (.error e, u) => (.error e, u)
      | (.ok (), u) =>
          match a.embedResult config with
          | .error e => (.error e, u)
          | .ok r => a.script.handle (.indexInsert (a.insert config r)) u := by
  have hwrite : ∀ u, Prog.exec a.script.handle (Synthesizer.storageWrite a.path a.content).run u =
      a.script.handle (.storageWrite a.path a.content) u := fun _ => rfl
  have hembed : ∀ u, Prog.exec a.script.handle
      (Synthesizer.embed ((a.textChunks config).map TextChunk.text)).run u =
        (a.embedResult config, u) := fun _ => rfl
  have hchunks : chunkText a.content config.chunkSize config.chunkOverlap = a.textChunks config :=
    rfl
  simp only [exec, Synthesizer.writeSynthesis, hchunks, List.isEmpty_eq_false_iff.mpr hsome,
    Bool.false_eq_true, if_false, exec_run_bind, hwrite, hembed]
  rcases a.script.handle (.storageWrite a.path a.content) s with ⟨r₁, u⟩
  cases r₁ with
  | error e => rfl
  | ok _ => cases a.embedResult config <;> rfl

/-- The steps after the content has been stored: the index takes the entry, or keeps its own. -/
theorem index_cases {u : SummaryStore} {outcome : Except MemoryError Unit}
    (h : (match a.embedResult config with
      | .error e => (.error e, u)
      | .ok r => a.script.handle (.indexInsert (a.insert config r)) u) = (outcome, t)) :
    t.fs = u.fs ∧
      ((¬ (∃ r, a.embedResult config = .ok r ∧ a.script.index.handled = true ∧
            (handleInsert u.db (a.insert config r) a.script.now a.script.indexFault).1 = .ok ()) ∧
          (t.db = u.db ∨ ∃ r e,
            handleInsert u.db (a.insert config r) a.script.now a.script.indexFault =
              (.error e, t.db))) ∨
        ∃ r, a.embedResult config = .ok r ∧ a.script.index.handled = true ∧
          handleInsert u.db (a.insert config r) a.script.now a.script.indexFault =
            (.ok (), t.db)) := by
  cases hembed : a.embedResult config with
  | error e =>
      simp only [hembed] at h
      cases h
      refine ⟨rfl, Or.inl ⟨?_, Or.inl rfl⟩⟩
      rintro ⟨r, hr, -⟩
      cases hr
  | ok r =>
      simp only [hembed] at h
      rcases SummaryScript.handle_indexInsert h with
        ⟨hfs, ⟨hunhandled, hdb⟩ | ⟨hhandled, result, hinsert⟩⟩
      · refine ⟨hfs, Or.inl ⟨?_, Or.inl hdb⟩⟩
        rintro ⟨r', -, hhandled, -⟩
        rw [hunhandled] at hhandled
        cases hhandled
      · refine ⟨hfs, ?_⟩
        cases result with
        | error e =>
            refine Or.inl ⟨?_, Or.inr ⟨r, e, hinsert⟩⟩
            rintro ⟨r', hr', -, htaken⟩
            rw [← Except.ok.inj hr', hinsert] at htaken
            cases htaken
        | ok _ => exact Or.inr ⟨r, rfl, hhandled, hinsert⟩

/-- Every way a write can go: nothing is stored; or the content is stored, and its entry put in the
index or not. -/
theorem exec_cases {r : Except MemoryError Unit} (h : a.exec config s = (r, t)) :
    (¬ a.Stores config s ∧ t.db = s.db ∧ (t.fs = s.fs ∨ ∃ e,
        storageWrite s.fs a.path a.content a.script.storageFault = (.error e, t.fs))) ∨
      (a.Stores config s ∧
        storageWrite s.fs a.path a.content a.script.storageFault = (.ok (), t.fs) ∧
          ((¬ a.Indexes config s ∧ (t.db = s.db ∨ ∃ r e,
              handleInsert s.db (a.insert config r) a.script.now a.script.indexFault =
                (.error e, t.db))) ∨
            (a.Indexes config s ∧ ∃ r, a.embedResult config = .ok r ∧
              handleInsert s.db (a.insert config r) a.script.now a.script.indexFault =
                (.ok (), t.db)))) := by
  by_cases hsome : a.textChunks config = []
  · -- A summary without chunks is not written.
    have hempty : (chunkText a.content config.chunkSize config.chunkOverlap).isEmpty = true :=
      List.isEmpty_iff.mpr hsome
    have hskip : a.exec config s = (.ok (), s) := by
      simp only [exec, Synthesizer.writeSynthesis, hempty, if_true]
      rfl
    rw [hskip] at h
    cases h
    exact Or.inl ⟨fun hstores => hstores.1 hsome, rfl, Or.inl rfl⟩
  · rw [exec_eq hsome] at h
    rcases hstore : a.script.handle (.storageWrite a.path a.content) s with ⟨r₁, s₁⟩
    rw [hstore] at h
    rcases SummaryScript.handle_storageWrite hstore with
      ⟨hdb₁, ⟨hunhandled, hfs₁, hr₁⟩ | ⟨hhandled, result, hwrite, hr₁⟩⟩
    · cases r₁ with
      | ok _ => exact absurd rfl hr₁
      | error e =>
          cases h
          refine Or.inl ⟨?_, hdb₁, Or.inl hfs₁⟩
          rintro ⟨-, hhandled, -⟩
          rw [hunhandled] at hhandled
          cases hhandled
    · cases r₁ with
      | error e =>
          -- The content has been stored or not, but no reply says that it has.
          cases h
          have hunknown : ¬ (a.script.storage = .answered ∧ result = .ok ()) :=
            fun hboth => absurd (hr₁.mpr hboth) (by simp)
          cases result with
          | error e' =>
              refine Or.inl ⟨?_, hdb₁, Or.inr ⟨e', hwrite⟩⟩
              rintro ⟨-, -, hstored⟩
              rw [hwrite] at hstored
              cases hstored
          | ok _ =>
              refine Or.inr ⟨⟨hsome, hhandled, by rw [hwrite]⟩, hwrite, Or.inl ⟨?_, Or.inl hdb₁⟩⟩
              rintro ⟨hanswered, -⟩
              exact hunknown ⟨hanswered, rfl⟩
      | ok _ =>
          rcases hr₁.mp rfl with ⟨hanswered, rfl⟩
          rcases index_cases h with ⟨hfs, hindex⟩
          rw [← hfs] at hwrite
          rw [hdb₁] at hindex
          refine Or.inr ⟨⟨hsome, hhandled, by rw [hwrite]⟩, hwrite, ?_⟩
          rcases hindex with ⟨hnot, hdb⟩ | ⟨r, hembed, hindexed, hinsert⟩
          · exact Or.inl ⟨fun hindexes => hnot hindexes.2, hdb⟩
          · exact Or.inr ⟨⟨hanswered, r, hembed, hindexed, by rw [hinsert]⟩, r, hembed, hinsert⟩

/-- What a write does to the disk and to the map of entries. -/
theorem exec_images {m : String → Option Entry} {d : Disk} (himage : Image m s.db)
    (hrep : Represents s.fs d) {r : Except MemoryError Unit} (h : a.exec config s = (r, t)) :
    ∃ m' d', Image m' t.db ∧ Represents t.fs d' ∧
      ((¬ a.Stores config s ∧ m' = m ∧ d' = d) ∨
        (a.Stores config s ∧ d' = d.insert a.path a.content ∧
          ((¬ a.Indexes config s ∧ m' = m) ∨
            (a.Indexes config s ∧ ∃ e, m' = Function.update m a.path (some e) ∧
              (e.chunks.map fun c => (⟨c.text, c.startLine, c.endLine⟩ : TextChunk)) =
                a.textChunks config)))) := by
  rcases exec_cases h with ⟨hnot, hdb, hfs⟩ | ⟨hstores, hwrite, hindex⟩
  · rw [← hdb] at himage
    refine ⟨m, d, himage, ?_, Or.inl ⟨hnot, rfl, rfl⟩⟩
    rcases hfs with hfs | ⟨e, hwrite⟩
    · rw [hfs]
      exact hrep
    · exact storageWrite_represents hrep a.valid_file hwrite
  · have hrep' : Represents t.fs (d.insert a.path a.content) :=
      storageWrite_represents hrep a.valid_file hwrite
    rcases hindex with ⟨hnot, hdb | ⟨r, e, hinsert⟩⟩ | ⟨hindexes, r, hembed, hinsert⟩
    · rw [← hdb] at himage
      exact ⟨m, _, himage, hrep', Or.inr ⟨hstores, rfl, Or.inl ⟨hnot, rfl⟩⟩⟩
    · have hhandled :=
        handleInsert_image himage (a.insert config r) a.script.now a.script.indexFault
      rw [hinsert] at hhandled
      rcases hhandled with ⟨hok, -⟩ | ⟨-, -, himage', -⟩
      · contradiction
      · exact ⟨m, _, himage', hrep', Or.inr ⟨hstores, rfl, Or.inl ⟨hnot, rfl⟩⟩⟩
    · have hhandled :=
        handleInsert_image himage (a.insert config r) a.script.now a.script.indexFault
      rw [hinsert] at hhandled
      rcases hhandled with ⟨-, himage'⟩ | ⟨e, herr, -⟩
      · have hlen : r.embeddings.length = (a.textChunks config).length := by
          have hreply := (propagate_receive_eq_ok.mp hembed).2
          rw [length_of_embed hreply, List.length_map]
        exact ⟨_, _, himage', hrep',
          Or.inr ⟨hstores, rfl, Or.inr ⟨hindexes, _, rfl, FileOp.textChunks_zip hlen⟩⟩⟩
      · contradiction

end SummaryCall

/-! ## Entries that describe what is stored -/

/-- The chunks of the entry of a path. -/
def IndexDb.textChunks (db : IndexDb) (path : String) : List TextChunk :=
  (db.chunks.rows.filter fun r => r.path = path).map fun r => ⟨r.text, r.startLine, r.endLine⟩

/-- The index has an entry for the path. -/
def IndexDb.HasEntry (db : IndexDb) (path : String) : Prop :=
  path ∈ db.files.rows.map FileRow.path

instance (db : IndexDb) (path : String) : Decidable (db.HasEntry path) :=
  inferInstanceAs (Decidable (_ ∈ _))

namespace SummaryStore

/-- If the index has an entry for the path, the path is stored and the chunks of the entry are
those of what is stored. -/
def DescribedAt (config : Synthesizer.MemoryConfig) (s : SummaryStore) (path : String) : Prop :=
  s.db.HasEntry path → ∃ content, storageRead s.fs path = .ok (some content) ∧
    s.db.textChunks path = chunkText content config.chunkSize config.chunkOverlap

/-- The index describes the stored summaries. -/
def Describes (config : Synthesizer.MemoryConfig) (s : SummaryStore) : Prop :=
  ∀ target name, IsTarget target → IsSummaryName name →
    s.DescribedAt config (summaryPath target name)

/-- One call of `write_synthesis`, whatever it returns. -/
def step (config : Synthesizer.MemoryConfig) (s : SummaryStore) (a : SummaryCall) :
    Option SummaryStore :=
  some (a.exec config s).2

/-- A text is not stored without its entry where there is an entry already, unless that has the
chunks of the text. -/
def KeepsUp (config : Synthesizer.MemoryConfig) (s : SummaryStore) (a : SummaryCall) : Prop :=
  a.Stores config s → a.Indexes config s ∨ ¬ s.db.HasEntry a.path ∨
    s.db.textChunks a.path = a.textChunks config

instance (config : Synthesizer.MemoryConfig) (s : SummaryStore) (a : SummaryCall) :
    Decidable (s.KeepsUp config a) :=
  inferInstanceAs (Decidable (_ → _ ∨ ¬ _ ∨ _))

/-! ## Writes that keep up -/

section

variable {config : Synthesizer.MemoryConfig} {s t : SummaryStore} {m : String → Option Entry}
  {d : Disk}

theorem hasEntry_iff (himage : Image m s.db) {path : String} :
    s.db.HasEntry path ↔ ∃ e, m path = some e := by
  constructor
  · intro hentry
    cases hm : m path with
    | none => exact absurd hentry (himage.path_fresh hm)
    | some e => exact ⟨e, rfl⟩
  · rintro ⟨e, hm⟩
    rcases himage.file_eq hm with ⟨row, hrow, -⟩
    have hmem : row ∈ s.db.files.rows.filter fun r => r.path = path := by simp [hrow]
    rcases List.mem_filter.mp hmem with ⟨hrow, hpath⟩
    exact List.mem_map.mpr ⟨row, hrow, by simpa using hpath⟩

/-- The entry of a path has the chunks of what the disk holds there. -/
def Covers (config : Synthesizer.MemoryConfig) (m : String → Option Entry) (d : Disk)
    (path : String) : Prop :=
  ∀ e, m path = some e → ∃ content, d.lookup path = some content ∧
    (e.chunks.map fun c => (⟨c.text, c.startLine, c.endLine⟩ : TextChunk)) =
      chunkText content config.chunkSize config.chunkOverlap

theorem describedAt_iff (himage : Image m s.db) (hrep : Represents s.fs d) {f : StoredFile}
    (hf : f.Valid) : s.DescribedAt config f.path ↔ Covers config m d f.path := by
  unfold DescribedAt Covers
  rw [hasEntry_iff himage, storageRead_represents hrep hf, forall_exists_index]
  refine forall₂_congr fun e hm => ?_
  rw [IndexDb.textChunks, himage.textChunks_eq hm]
  simp

theorem describes_iff (himage : Image m s.db) (hrep : Represents s.fs d) :
    s.Describes config ↔ ∀ target name, IsTarget target → IsSummaryName name →
      Covers config m d (StoredFile.summary target name).path := by
  refine forall₄_congr fun target name htarget hname => ?_
  have hvalid : (StoredFile.summary target name).Valid := ⟨htarget, hname⟩
  exact describedAt_iff himage hrep hvalid

/-- A write changes nothing at the paths of other files. -/
theorem covers_other {a : SummaryCall} {f : StoredFile} (hf : f.Valid) (hne : f ≠ a.file)
    (v : Option Entry) :
    Covers config (Function.update m a.path v) (d.insert a.path a.content) f.path ↔
      Covers config m d f.path := by
  have hpath : f.path ≠ a.path := fun heq => hne (hf.path_inj a.valid_file heq)
  unfold Covers
  rw [Function.update_of_ne hpath, AList.lookup_insert_ne hpath]

/-- After a write, the index covers the file if it has taken the entry or has none for it, or if
the entry there has the chunks of the new text. -/
theorem covers_written (config : Synthesizer.MemoryConfig) (m : String → Option Entry) (d : Disk)
    {a : SummaryCall} {v : Option Entry} :
    Covers config (Function.update m a.path v) (d.insert a.path a.content) a.path ↔
      ∀ e, v = some e → (e.chunks.map fun c =>
        (⟨c.text, c.startLine, c.endLine⟩ : TextChunk)) = a.textChunks config := by
  unfold Covers
  rw [Function.update_self, AList.lookup_insert]
  refine forall₂_congr fun e _ => ?_
  simp [SummaryCall.textChunks]

/-- The states of runs: the index is the image of a map, and the tree represents a disk. -/
def Sound (s : SummaryStore) : Prop :=
  ∃ m d, Image m s.db ∧ Represents s.fs d

theorem sound_step {a : SummaryCall} (hsound : Sound s) (h : step config s a = some t) :
    Sound t := by
  rcases hsound with ⟨m, d, himage, hrep⟩
  have hexec : a.exec config s = ((a.exec config s).1, t) := by
    rw [← Option.some.inj h]
  rcases SummaryCall.exec_images himage hrep hexec with ⟨m', d', himage', hrep', -⟩
  exact ⟨m', d', himage', hrep'⟩

/-- From a state in which the index describes the stored summaries, a write leads to such a state
exactly if it keeps up. -/
theorem describes_step_iff {a : SummaryCall} (hsound : Sound s) (hs : s.Describes config)
    (h : step config s a = some t) : t.Describes config ↔ s.KeepsUp config a := by
  rcases hsound with ⟨m, d, himage, hrep⟩
  have hexec : a.exec config s = ((a.exec config s).1, t) := by
    rw [← Option.some.inj h]
  rw [describes_iff himage hrep] at hs
  rcases SummaryCall.exec_images himage hrep hexec with
    ⟨m', d', himage', hrep', ⟨hnot, rfl, rfl⟩ | ⟨hstores, rfl, hindex⟩⟩
  · constructor
    · intro _ hstores
      exact absurd hstores hnot
    · intro _
      exact (describes_iff himage' hrep').mpr hs
  · -- The index describes all files if it describes the one that has been written.
    have hwritten : ∀ v, m' = Function.update m a.path v →
        (t.Describes config ↔ ∀ e, v = some e → (e.chunks.map fun c =>
          (⟨c.text, c.startLine, c.endLine⟩ : TextChunk)) = a.textChunks config) := by
      rintro v rfl
      rw [describes_iff himage' hrep', ← covers_written config m d]
      constructor
      · intro hall
        exact hall a.target a.name a.isTarget a.isSummaryName
      · intro hpath target name htarget hname
        by_cases hfile : StoredFile.summary target name = a.file
        · rw [hfile]
          exact hpath
        · have hvalid : (StoredFile.summary target name).Valid := ⟨htarget, hname⟩
          exact (covers_other hvalid hfile v).mpr (hs target name htarget hname)
    rcases hindex with ⟨hnot, rfl⟩ | ⟨hindexes, e, hm', hchunks⟩
    · rw [hwritten (m' a.path) (Function.update_eq_self _ _).symm]
      constructor
      · intro hsame _
        by_cases hentry : s.db.HasEntry a.path
        · rcases (hasEntry_iff himage).mp hentry with ⟨e, hm⟩
          refine Or.inr (Or.inr ?_)
          rw [IndexDb.textChunks, himage.textChunks_eq hm]
          exact hsame e hm
        · exact Or.inr (Or.inl hentry)
      · intro hkeeps e hm
        rcases hkeeps hstores with hindexes | hnone | hsame
        · exact absurd hindexes hnot
        · exact absurd ((hasEntry_iff himage).mpr ⟨e, hm⟩) hnone
        · rw [← hsame, IndexDb.textChunks, himage.textChunks_eq hm]
    · rw [hwritten (some e) hm']
      constructor
      · intro _ _
        exact Or.inl hindexes
      · rintro - e' heq
        rw [← Option.some.inj heq]
        exact hchunks

end

/-- From any state in which the index describes the stored summaries, it does so throughout a run
of writes exactly if every write of the run keeps up. -/
theorem describes_throughout_iff {config : Synthesizer.MemoryConfig} {actions : List IndexAction}
    {s₀ : IndexState} (hrun : run IndexState.step .start actions = some s₀) {s : SummaryStore}
    (hdb : s.db = s₀.db) {d : Disk} (hrep : Represents s.fs d) (hs : s.Describes config)
    (calls : List SummaryCall) :
    Throughout (step config) (Describes config) s calls ↔
      StepsMeet (step config) (KeepsUp config) s calls := by
  have himage : Image s₀.mapped s.db := hdb ▸ image_of_run hrun
  exact throughout_iff_stepsMeet (J := Sound) (fun _ _ _ hsound h => sound_step hsound h)
    (fun _ _ _ hsound hs h => describes_step_iff hsound hs h) hs ⟨_, d, himage, hrep⟩

/-- No files, a new index. -/
def fresh : SummaryStore :=
  ⟨.empty, .fresh⟩

theorem fresh_describes (config : Synthesizer.MemoryConfig) : fresh.Describes config := by
  intro target name _ _ hentry
  simp [fresh, IndexDb.HasEntry, IndexDb.fresh] at hentry

end SummaryStore

/-- The replies to the calls a write does not make. -/
def silent : (c : SynthesizerCall) → c.Response
  | .storageRead _ => .error .recvError
  | .storageWrite _ _ => .error .recvError
  | .embed _ => .error .recvError
  | .synthesize _ _ _ => .error .recvError
  | .indexInsert _ => .error .recvError
  | .readDir _ => none
  | .fileSize _ => none
  | .today => ⟨2026, 5, 18, may19.month_range, by decide⟩

/-- A write of the global summary, with its embedding as given. -/
def SummaryCall.sample (content : String) (response : Except LlmError EmbedResult) :
    SummaryCall where
  target := .global
  name := "2026-05-18-01.md"
  content := content
  script := ⟨.answered, none, .answered, response, none, .answered, 0, none, silent⟩
  isTarget := trivial
  isSummaryName := ⟨by decide, "2026-05-18-01", rfl⟩

theorem describes_throughout_iff_sample :
    Throughout (SummaryStore.step .withDefaults) (SummaryStore.Describes .withDefaults) .fresh
      [.sample "x" (.ok ⟨"m", [⟨[0x3f800000], Embedding.one_length_lt⟩]⟩),
        .sample "y" (.ok ⟨"m", [⟨[1], by decide⟩]⟩)] := by
  have hrun : run IndexState.step .start [] = some .start := rfl
  exact (SummaryStore.describes_throughout_iff hrun rfl represents_empty
    (SummaryStore.fresh_describes _) _).mpr (by decide +kernel)

/-- A text that replaces another one, with an embedding that fails. -/
def SummaryCall.unembedded : List SummaryCall :=
  [.sample "x" (.ok ⟨"m", [⟨[0x3f800000], Embedding.one_length_lt⟩]⟩),
    .sample "y" (.error (.provider "timeout"))]

/-- The entry of the first text stays, with its chunks, beside the second one. -/
theorem stale_entry :
    ¬ Throughout (SummaryStore.step .withDefaults) (SummaryStore.Describes .withDefaults) .fresh
      SummaryCall.unembedded := by
  intro h
  have hname : IsSummaryName "2026-05-18-01.md" := ⟨by decide, "2026-05-18-01", rfl⟩
  have hlast := (h.2 _ rfl).2 _ rfl .global "2026-05-18-01.md" trivial hname
  rcases hlast (by decide +kernel) with ⟨content, hread, hchunks⟩
  have hstored : storageRead
      (((SummaryCall.sample "y" (.error (.provider "timeout"))).exec .withDefaults
        ((SummaryCall.sample "x" (.ok ⟨"m", [⟨[0x3f800000], Embedding.one_length_lt⟩]⟩)).exec
          .withDefaults
          .fresh).2).2).fs (summaryPath .global "2026-05-18-01.md") = .ok (some "y") := by
    decide +kernel
  rw [hstored] at hread
  cases hread
  revert hchunks
  decide +kernel

end Memory
end MemoryHub
