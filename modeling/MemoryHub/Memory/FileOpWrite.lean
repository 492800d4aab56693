import MemoryHub.Memory.FileOpFaults
import MemoryHub.Memory.FileOpInterleaving
import MemoryHub.Memory.StoreMap
import MemoryHub.Memory.StoredFiles

/-!
# Writes

What one write leaves behind: a successful one a file and an entry with every chunk, a
failed one what was there before, unless its storage step got further than that.

Main results:

- Theorem `write_indexes_all`: after a successful write the rows of the path are the chunks
  of the content, each with the vector the provider returned for it.
- Theorem `failed_write_unchanged_iff`: when a failed write changes nothing.
- Theorem `overwrite_loses_entry`: a failed overwrite that takes the old entry away.
-/

namespace MemoryHub
namespace Memory

open FileSystem Llm Machine

/-! ## The index messages on their own -/

section Messages

variable {m : String → Option Entry} {w w' : World}

/-- An answered insert maps the path to the new entry, or fails and keeps the map. -/
theorem World.sendInsert_answered (himage : Image m w.db) {insert : IndexInsert}
    {content : String} {now : Int} {fault : Option IndexFault} {r : Except MemoryError Unit}
    (h : w.sendInsert .answered insert content now fault = (r, w')) :
    w'.fs = w.fs ∧
      ((r = .ok () ∧ (handleInsert w.db insert now fault).1 = .ok () ∧
          Image (Function.update m insert.path (some insert.entry)) w'.db) ∨
        ((∃ e, r = .error e) ∧ (∃ e, (handleInsert w.db insert now fault).1 = .error e) ∧
          Image m w'.db)) := by
  have hfs := World.sendInsert_fs w .answered insert content now fault
  rw [h] at hfs
  refine ⟨hfs, ?_⟩
  have hhandled := handleInsert_image himage insert now fault
  unfold World.sendInsert at h
  simp only [Delivery.handled, if_true] at h
  rcases hr : handleInsert w.db insert now fault with ⟨result, db⟩
  rw [hr] at h hhandled
  cases result with
  | ok _ =>
      cases h
      rcases hhandled with ⟨-, himage'⟩ | ⟨e, herr, -⟩
      · exact Or.inl ⟨rfl, rfl, himage'⟩
      · contradiction
  | error e =>
      cases h
      rcases hhandled with ⟨hok, -⟩ | ⟨-, -, himage', -⟩
      · contradiction
      · exact Or.inr ⟨⟨_, rfl⟩, ⟨e, rfl⟩, himage'⟩

/-- An insert that succeeds has been answered. -/
theorem World.answered_of_sendInsert {d : Delivery} {insert : IndexInsert} {content : String}
    {now : Int} {fault : Option IndexFault}
    (h : w.sendInsert d insert content now fault = (.ok (), w')) : d = .answered := by
  have hr := congrArg Prod.fst h
  unfold World.sendInsert at hr
  split at hr
  · split at hr
    · exact (propagate_receive_eq_ok.mp hr).1
    · exact (propagate_receive_eq_ok.mp hr).1
  · exact (propagate_receive_eq_ok.mp hr).1

/-- What a delete does to the index depends on the index alone. -/
theorem World.sendDelete_db {w₁ w₂ : World} (h : w₂.db = w₁.db) (d : Delivery) (path : String)
    (fault : Option IndexFault) :
    (w₂.sendDelete d path fault).2.db = (w₁.sendDelete d path fault).2.db := by
  unfold World.sendDelete
  rw [h]
  split
  · split <;> rfl
  · exact h

/-- An answered delete without a failing statement unmaps the path. -/
theorem World.sendDelete_answered (himage : Image m w.db) (path : String) :
    Image (Function.update m path none) (w.sendDelete .answered path none).2.db := by
  rcases doDelete_image himage path with ⟨db', hok, himage'⟩
  have hhandle : handleDelete w.db path none = (.ok (), db') := by
    simp [handleDelete, transaction, hok]
  simp only [World.sendDelete, Delivery.handled, if_true, hhandle]
  exact himage'

end Messages

/-! ## Successful writes -/

/-- What a successful write leaves: the content at the path, one chunk row and one vector
row for each chunk, and vectors that fit the table. -/
structure WrittenOut (op : FileOp) (path content : String) (r : EmbedResult) (w : World) :
    Prop where
  stored : storageRead w.fs path = .ok (some content)
  complete : r.embeddings.length = (chunkText content op.chunkSize op.chunkOverlap).length
  rows : (w.db.chunks.rows.filter fun row => row.path = path).map ChunkRow.data =
    (chunkText content op.chunkSize op.chunkOverlap).zipIdx.map fun c =>
      (chunkId path c.2, c.1.startLine, c.1.endLine, r.model, c.1.text)
  vectors : (w.db.vecRows.filter fun v => v.chunkId ∈ w.db.chunkIds path) =
    r.embeddings.zipIdx.map fun e => ⟨chunkId path e.2, vecToBlob e.1.values⟩
  dims : ∀ v ∈ w.db.vecRows, ∃ dim, w.db.vecDim = some dim ∧ v.embedding.length = 4 * dim

/-- The chunk rows of the entry a write asks for. -/
theorem chunkData_entry {path source model : String} {size : UInt64} {chunks : List TextChunk}
    {embeddings : List Embedding} (h : embeddings.length = chunks.length) :
    chunkData path ⟨source, size, model, (chunks.zip embeddings).map fun c =>
      ⟨c.1.text, c.1.startLine, c.1.endLine, c.2⟩⟩ =
        chunks.zipIdx.map fun c =>
          (chunkId path c.2, c.1.startLine, c.1.endLine, model, c.1.text) := by
  refine List.ext_getElem ?_ ?_
  · simp [chunkData, h]
  · intro i _ _
    simp [chunkData]

/-- The vector rows of the entry a write asks for. -/
theorem vecData_entry {path source model : String} {size : UInt64} {chunks : List TextChunk}
    {embeddings : List Embedding} (h : embeddings.length = chunks.length) :
    vecData path ⟨source, size, model, (chunks.zip embeddings).map fun c =>
      ⟨c.1.text, c.1.startLine, c.1.endLine, c.2⟩⟩ =
        embeddings.zipIdx.map fun e => ⟨chunkId path e.2, vecToBlob e.1.values⟩ := by
  refine List.ext_getElem ?_ ?_
  · simp [vecData, h]
  · intro i _ _
    simp [vecData]

/-- On any index that messages have built, a successful write stores the content and
indexes every chunk of it, with the vector the provider returned for the chunk. -/
theorem write_indexes_all {actions : List IndexAction} {s₀ : IndexState}
    (hrun : run IndexState.step .start actions = some s₀) {op : FileOp} {w w' : World}
    (hdb : w.db = s₀.db) {msg : FileOpWrite} {script : WriteScript} {notified : Option FileChanged}
    (h : op.write w msg script = (.replied (.ok ()) notified, w')) :
    ∃ path r, getRawPath msg.username msg.agentId msg.project msg.filename = .ok path ∧
      (chunkText msg.content op.chunkSize op.chunkOverlap ≠ [] → script.response = .ok r) ∧
      WrittenOut op path msg.content r w' := by
  have himage : Image s₀.mapped w.db := hdb ▸ image_of_run hrun
  rcases FileOp.write_cases h with
    ⟨-, hnot⟩ | ⟨path, insert, r₁, w₁, hpath, hbuild, -, hsend, hrest⟩
  · exact absurd rfl (hnot notified)
  · rcases hrest with ⟨-, hnot, -⟩ | ⟨rfl, -, r₂, w₂, hstore, hend⟩
    · exact absurd rfl (hnot notified)
    · rcases hend with ⟨rfl, hreply, -⟩ | ⟨e, -, -, hreply, -⟩
      · have hanswered := World.answered_of_sendInsert hsend
        rw [hanswered] at hsend
        rcases World.sendInsert_answered himage hsend with ⟨-, ⟨-, -, himage₁⟩ | ⟨⟨e, he⟩, -⟩⟩
        · rcases World.sendStorageWrite_cases hstore with
            ⟨-, -, e, he⟩ | ⟨-, hdb₂, -, result, hcall, hr₂⟩
          · rw [hreply notified rfl] at he
            contradiction
          · have hresult : result = .ok () := by
              rw [hreply notified rfl] at hr₂
              cases hs : script.storage <;> rw [hs] at hr₂ <;>
                simp [Delivery.receive] at hr₂
              exact hr₂.symm
            rw [hresult] at hcall
            rcases FileOp.buildInsert_cases hbuild with ⟨r, hlen, hresponse, rfl⟩
            rw [← hdb₂] at himage₁
            refine ⟨path, r, hpath, hresponse, ?_, hlen, ?_, ?_, ?_⟩
            · exact storageRead_of_content (content_of_write hcall)
            · rw [himage₁.chunks path, Function.update_self]
              exact chunkData_entry hlen
            · rw [himage₁.vectors path, Function.update_self]
              exact vecData_entry hlen
            · exact himage₁.dims
        · contradiction
      · simp at hreply

/-- The index holds another note, and an older version of the one that is written. -/
def earlierEntries : List IndexAction :=
  [.insert ⟨rawPath "alice" .nil "_default" "b.md", "raw", 1, "m",
      [⟨"y", 1, 1, ⟨[0x40400000], by decide⟩⟩]⟩ 0 none,
    .insert ⟨World.samplePath, "raw", 1, "m", [⟨"x", 1, 1, ⟨[0x40800000], by decide⟩⟩]⟩ 1 none]

/-- Chunks of a line each. -/
def lineByLine : FileOp :=
  ⟨1, 0, some 1⟩

/-- A note of two lines. -/
def twoLines : FileOpWrite :=
  ⟨"alice", .nil, none, "a.md", "a\nb"⟩

/-- A vector for each line. -/
def twoVectors : WriteScript :=
  .answered (.ok ⟨"m", [⟨[0x3f800000], Embedding.one_length_lt⟩, ⟨[0x40a00000], by decide⟩]⟩) 2

theorem write_indexes_all_sample :
    ∃ s₀ w', run IndexState.step .start earlierEntries = some s₀ ∧
      lineByLine.write { World.fresh with db := s₀.db } twoLines twoVectors =
        (.replied (.ok ()) (some ⟨"alice", .nil, World.samplePath⟩), w') ∧
      ∃ path r, getRawPath "alice" .nil none "a.md" = .ok path ∧
        (chunkText "a\nb" 1 0 ≠ [] → twoVectors.response = .ok r) ∧
        WrittenOut lineByLine path "a\nb" r w' := by
  let second : IndexState → Outcome × World := fun s =>
    lineByLine.write { World.fresh with db := s.db } twoLines twoVectors
  have hend : (run IndexState.step .start earlierEntries).map (fun s => (second s).1) =
      some (.replied (.ok ()) (some ⟨"alice", .nil, World.samplePath⟩)) := by
    decide +kernel
  rcases Option.map_eq_some_iff.mp hend with ⟨s₀, hrun, hreply⟩
  have hwrite : second s₀ =
      (.replied (.ok ()) (some ⟨"alice", .nil, World.samplePath⟩), (second s₀).2) :=
    Prod.ext hreply rfl
  exact ⟨s₀, _, hrun, hwrite, write_indexes_all hrun rfl hwrite⟩

/-! ## Failed writes -/

/-- What the index holds about a path: its row of `files`, its chunk rows and its vectors,
apart from the times of the insert and the row numbers. -/
def IndexDb.entryRows (db : IndexDb) (path : String) :
    List (String × Int) × List (String × UInt32 × UInt32 × String × String) × List VecRow :=
  ((db.files.rows.filter fun r => r.path = path).map fun r => (r.source, r.size),
    (db.chunks.rows.filter fun r => r.path = path).map ChunkRow.data,
    db.vecRows.filter fun v => v.chunkId ∈ db.chunkIds path)

/-- Every path leads to the file that it led to, and no entry has been added, changed or taken
away. -/
structure Unchanged (w w' : World) : Prop where
  files : ∀ path, storedFile w'.fs path = storedFile w.fs path
  entries : ∀ path, w'.db.entryRows path = w.db.entryRows path

/-- The write does not get past its index step; or nothing was stored at the path, and the
storage step makes no folder through which a file could be reached, and leaves no temporary file
that was not there before. -/
def FailsEarly (op : FileOp) (w : World) (msg : FileOpWrite) (script : WriteScript) : Prop :=
  ∀ path insert, getRawPath msg.username msg.agentId msg.project msg.filename = .ok path →
    op.buildInsert path msg.content script.embed script.response = .ok insert →
      (handleInsert w.db insert script.now script.indexFault).1 = .ok () →
        storageContent w.fs path = none ∧
          (withFolder w.fs path script.storageFault = w.fs ∨ ∀ q, storedFile w.fs q = none) ∧
            (FillsTemp w.fs path script.storageFault → w.fs.node (tempLocation path) =
              some (.file (tempLeft msg.content script.storageFault)))

/-- Every message is answered, the process does not die, and an undo succeeds. -/
structure WriteScript.Answered (script : WriteScript) : Prop where
  embed : script.embed = .answered
  index : script.index = .answered
  storage : script.storage = .answered
  undo : script.undo = .answered
  undoFault : script.undoFault = none
  crash : script.crash = none

section Failed

variable {m m' : String → Option Entry} {w w' : World}

/-- The rows of a path are those of its entry. -/
theorem Image.entryRows_eq {db : IndexDb} (himage : Image m db) (path : String) :
    db.entryRows path = (((m path).map fun e => (e.source, asI64 e.size)).toList,
      ((m path).map (chunkData path)).getD [], ((m path).map (vecData path)).getD []) := by
  rw [IndexDb.entryRows, himage.files path, himage.chunks path, himage.vectors path]

/-- With the entry of a path gone, the rows are the same exactly if there was none. -/
theorem entryRows_removed_iff {db db' : IndexDb} (himage : Image m db) {path : String}
    (himage' : Image (Function.update m path none) db') :
    (∀ q, db'.entryRows q = db.entryRows q) ↔ m path = none := by
  constructor
  · intro hsame
    have hpath := congrArg Prod.fst (hsame path)
    rw [himage.entryRows_eq, himage'.entryRows_eq, Function.update_self] at hpath
    cases hm : m path with
    | none => rfl
    | some e => simp [hm] at hpath
  · intro hm q
    have hidle : Function.update m path none = m := by
      rw [← hm, Function.update_eq_self]
    rw [himage.entryRows_eq, himage'.entryRows_eq, hidle]

/-- Where index and storage agree, a path has an entry exactly if it holds a content. -/
theorem mapped_eq_none_iff {op : FileOp} (himage : Image m w.db) {path : String}
    (hagree : Requests.AgreeAt op w path) : m path = none ↔ storageContent w.fs path = none := by
  have hfiles := himage.files path
  unfold Requests.AgreeAt at hagree
  cases hcontent : storageContent w.fs path with
  | none =>
      simp only [hcontent] at hagree
      rw [hagree.1, List.map_nil] at hfiles
      cases hm : m path with
      | none => simp
      | some e => simp [hm] at hfiles
  | some content =>
      simp only [hcontent] at hagree
      rcases hagree.1 with ⟨row, hrow⟩
      cases hm : m path with
      | none => simp [hm, hrow] at hfiles
      | some e => simp

/-- A failed write whose messages are all answered ends before its storage step, or at it. -/
theorem failed_write_cases {op : FileOp} {msg : FileOpWrite} {script : WriteScript}
    (hscript : script.Answered) {e : MemoryError} {notified : Option FileChanged}
    (h : op.write w msg script = (.replied (.error e) notified, w')) :
    w' = w ∧ (∀ path insert,
        getRawPath msg.username msg.agentId msg.project msg.filename = .ok path →
          op.buildInsert path msg.content script.embed script.response ≠ .ok insert) ∨
      ∃ path insert r w₁,
        getRawPath msg.username msg.agentId msg.project msg.filename = .ok path ∧
        op.buildInsert path msg.content script.embed script.response = .ok insert ∧
        w.sendInsert .answered insert msg.content script.now script.indexFault = (r, w₁) ∧
        ((w' = w₁ ∧ ∃ e, r = .error e) ∨
          (r = .ok () ∧ ∃ e fs', storageWrite w.fs path msg.content script.storageFault =
              (.error e, fs') ∧ w'.fs = fs' ∧
            w'.db = (w₁.sendDelete .answered path none).2.db)) := by
  unfold FileOp.write at h
  simp only [hscript.index, hscript.storage, hscript.undo, hscript.undoFault, hscript.crash,
    reduceCtorEq, if_false] at h
  cases hpath : getRawPath msg.username msg.agentId msg.project msg.filename with
  | error e =>
      simp only [hpath] at h
      cases h
      exact Or.inl ⟨rfl, by simp⟩
  | ok path =>
      simp only [hpath] at h
      cases hbuild : op.buildInsert path msg.content script.embed script.response with
      | error e =>
          simp only [hbuild] at h
          cases h
          refine Or.inl ⟨rfl, ?_⟩
          intro path' insert hpath'
          cases hpath'
          simp [hbuild]
      | ok insert =>
          simp only [hbuild] at h
          rcases hsend : w.sendInsert .answered insert msg.content script.now script.indexFault
            with ⟨r, w₁⟩
          refine Or.inr ⟨path, insert, r, w₁, rfl, hbuild, hsend, ?_⟩
          simp only [hsend] at h
          cases r with
          | error e =>
              cases h
              exact Or.inl ⟨rfl, e, rfl⟩
          | ok _ =>
              right
              have hfs₁ : w₁.fs = w.fs := by
                rw [← World.sendInsert_fs w .answered insert msg.content script.now
                  script.indexFault, hsend]
              rcases hstore : w₁.sendStorageWrite .answered path msg.content script.storageFault
                with ⟨r₂, w₂⟩
              simp only [hstore] at h
              rcases World.sendStorageWrite_cases hstore with
                ⟨hunhandled, -⟩ | ⟨-, hdb₂, -, result, hcall, rfl⟩
              · contradiction
              · rw [hfs₁] at hcall
                cases result with
                | ok _ => simp [Delivery.receive] at h
                | error e' =>
                    simp only [Delivery.receive, Prod.mk.injEq] at h
                    refine ⟨rfl, e', w₂.fs, hcall, ?_, ?_⟩
                    · rw [← h.2, World.sendDelete_fs]
                    · rw [← h.2]
                      exact World.sendDelete_db hdb₂ .answered path none

/-- A failed write whose messages are all answered, from a state in which index and storage
agree, changes nothing exactly if it fails early. -/
theorem failed_write_unchanged_iff {actions : List IndexAction} {s₀ : IndexState}
    (hrun : run IndexState.step .start actions = some s₀) {op : FileOp}
    (hdb : w.db = s₀.db) (hagree : ∀ path, IsRawPath path → Requests.AgreeAt op w path)
    {msg : FileOpWrite} (huser : Http.validateUsername msg.username = .ok ())
    {script : WriteScript} (hscript : script.Answered) {e : MemoryError}
    {notified : Option FileChanged}
    (h : op.write w msg script = (.replied (.error e) notified, w')) :
    Unchanged w w' ↔ FailsEarly op w msg script := by
  have himage : Image s₀.mapped w.db := hdb ▸ image_of_run hrun
  rcases failed_write_cases hscript h with
    ⟨rfl, hnone⟩ | ⟨path, insert, r, w₁, hpath, hbuild, hsend, hend⟩
  · constructor
    · intro _ path insert hpath hbuild
      exact absurd hbuild (hnone path insert hpath)
    · intro _
      exact ⟨fun _ => rfl, fun _ => rfl⟩
  · have hfrom := (FileOp.buildInsert_eq_ok hbuild).1
    have huniq : ∀ path' insert',
        getRawPath msg.username msg.agentId msg.project msg.filename = .ok path' →
          op.buildInsert path' msg.content script.embed script.response = .ok insert' →
            path' = path ∧ insert' = insert := by
      intro path' insert' hpath' hbuild'
      rw [hpath, Except.ok.injEq] at hpath'
      subst hpath'
      rw [hbuild, Except.ok.injEq] at hbuild'
      exact ⟨rfl, hbuild'.symm⟩
    rcases World.sendInsert_answered himage hsend with
      ⟨hfs₁, ⟨rfl, hinserted, himage₁⟩ | ⟨⟨e₁, rfl⟩, ⟨e₂, hrefused⟩, himage₁⟩⟩
    · rcases hend with ⟨-, e₁, he₁⟩ | ⟨-, e', fs', hwrite, hfs', hdb'⟩
      · contradiction
      · have himage' : Image (Function.update s₀.mapped path none) w'.db := by
          have hundone := World.sendDelete_answered himage₁ path
          rw [hfrom, Function.update_idem, ← hdb'] at hundone
          exact hundone
        have hentries := entryRows_removed_iff himage himage'
        have hfiles := storedFiles_kept_iff hwrite
        rw [← hfs'] at hfiles
        have hraw : IsRawPath path := ⟨_, _, _, _, huser, hpath⟩
        have hnew := mapped_eq_none_iff himage (hagree path hraw)
        constructor
        · rintro ⟨hsameFiles, hsameEntries⟩ path' insert' hpath' hbuild' -
          rcases huniq path' insert' hpath' hbuild' with ⟨rfl, rfl⟩
          exact ⟨hnew.mp (hentries.mp hsameEntries), hfiles.mp hsameFiles⟩
        · intro hearly
          rcases hearly path insert hpath hbuild hinserted with ⟨hnothing, hstored⟩
          exact ⟨hfiles.mpr hstored, hentries.mpr (hnew.mpr hnothing)⟩
    · rcases hend with ⟨rfl, -⟩ | ⟨hr, -⟩
      · constructor
        · intro _ path' insert' hpath' hbuild' hinserted
          rcases huniq path' insert' hpath' hbuild' with ⟨rfl, rfl⟩
          rw [hrefused] at hinserted
          contradiction
        · intro _
          refine ⟨fun _ => by rw [hfs₁], fun q => ?_⟩
          rw [himage₁.entryRows_eq, himage.entryRows_eq]
      · contradiction

end Failed

/-! ## A stored note -/

/-- After both steps of a request that spares the other paths, index and storage agree
again. -/
theorem agreeAt_of_steps {op : FileOp} {w w₁ w₂ : World} (hindexed : Indexed op w)
    (hsame : ∀ path, IsRawPath path → w.built path = storageContent w.fs path)
    {r : FileRequest} {response : Except LlmError EmbedResult} {now : Int} {path : String}
    (hpath : r.path = some path) (hspares : r.Spares w.fs path)
    (hindex : r.indexStep op w response now = some w₁) (hstore : r.storeStep w₁ = some w₂) :
    ∀ other, IsRawPath other → Requests.AgreeAt op w₂ other := by
  intro other hraw
  rcases FileRequest.indexStep_eq_some hindexed hindex with
    ⟨path', hpath', hfs₁, hindexed₁, hbuilt₁⟩
  have heq : path' = path := Option.some.inj (hpath'.symm.trans hpath)
  subst heq
  rw [← hfs₁] at hspares
  rcases FileRequest.storeStep_eq_some hpath hspares hstore with ⟨hdb, hbuilt₂, hcontent⟩
  rw [Requests.agreeAt_iff (indexed_of_eq hindexed₁ hdb hbuilt₂) hraw, hbuilt₂, hbuilt₁,
    hcontent other hraw, hfs₁]
  by_cases hother : other = path'
  · rw [hother, Function.update_self, Function.update_self]
    exact Requests.Alike.refl op _
  · rw [Function.update_of_ne hother, Function.update_of_ne hother, hsame other hraw]
    exact Requests.Alike.refl op _

/-- The index after a first write. -/
def firstEntry : List IndexAction :=
  [.insert ⟨World.samplePath, "raw", 1, "m",
    [⟨"x", 1, 1, ⟨[0x3f800000], Embedding.one_length_lt⟩⟩]⟩ 0 none]

/-- After a first write the index holds its entry, and index and storage agree. -/
theorem exists_after_firstEntry : ∃ w s₀,
    ((FileRequest.write World.sampleWrite).indexStep .withDefaults .fresh
      WriteScript.sample.response 0).bind (FileRequest.write World.sampleWrite).storeStep =
        some w ∧
      run IndexState.step .start firstEntry = some s₀ ∧ w.db = s₀.db ∧
        ∀ path, IsRawPath path → Requests.AgreeAt .withDefaults w path := by
  have hruns : (((FileRequest.write World.sampleWrite).indexStep .withDefaults .fresh
      WriteScript.sample.response 0).bind
        (FileRequest.write World.sampleWrite).storeStep).isSome = true := by
    decide +kernel
  rcases Option.isSome_iff_exists.mp hruns with ⟨w, hboth⟩
  have hdb : ∃ s₀, run IndexState.step .start firstEntry = some s₀ ∧ w.db = s₀.db := by
    cases hboth
    exact ⟨_, rfl, rfl⟩
  rcases hdb with ⟨s₀, hrun, hdb⟩
  rcases Option.bind_eq_some_iff.mp hboth with ⟨w₁, hindex, hstore⟩
  exact ⟨w, s₀, hboth, hrun, hdb,
    agreeAt_of_steps (World.fresh_indexed _) (fun path _ => (storageContent_empty path).symm)
      rfl (Requests.sampleWrite_spares "x") hindex hstore⟩

/-- Beside the stored note, the temporary file of another does not open. -/
def unopenedWrite : WriteScript :=
  { WriteScript.sample with storageFault := some (.openTemp (.other "EIO")) }

theorem failed_write_unchanged_iff_sample : ∃ w s₀ e w',
    run IndexState.step .start firstEntry = some s₀ ∧ w.db = s₀.db ∧
      FileOp.withDefaults.write w ⟨"alice", .nil, none, "b.md", "y"⟩ unopenedWrite =
        (.replied (.error e) none, w') ∧ Unchanged w w' := by
  let second : World → Outcome × World := fun w =>
    FileOp.withDefaults.write w ⟨"alice", .nil, none, "b.md", "y"⟩ unopenedWrite
  let target := rawPath "alice" .nil "_default" "b.md"
  rcases exists_after_firstEntry with ⟨w, s₀, hboth, hrun, hdb, hagree⟩
  have hend : (((FileRequest.write World.sampleWrite).indexStep .withDefaults .fresh
      WriteScript.sample.response 0).bind (FileRequest.write World.sampleWrite).storeStep).map
        (fun w => ((second w).1, storageContent w.fs target)) =
      some (.replied (.error (.storage ⟨tempPath target, .other "EIO"⟩)) none, none) := by
    decide +kernel
  rw [hboth, Option.map_some, Option.some.injEq, Prod.mk.injEq] at hend
  have hwrite : second w =
      (.replied (.error (.storage ⟨tempPath target, .other "EIO"⟩)) none, (second w).2) :=
    Prod.ext hend.1 rfl
  have hscript : unopenedWrite.Answered := ⟨rfl, rfl, rfl, rfl, rfl, rfl⟩
  refine ⟨w, s₀, _, _, hrun, hdb, hwrite, ?_⟩
  refine (failed_write_unchanged_iff hrun hdb hagree (by decide) hscript hwrite).mpr ?_
  intro path insert hpath _ _
  cases hpath
  refine ⟨hend.2, Or.inl ?_, fun hfills => absurd rfl (hfills.1.2.1 (.other "EIO"))⟩
  cases hboth
  rfl

/-! ## A failed overwrite -/

/-- A write over a stored file that fails at its rename. -/
def failedOverwrite : WriteScript :=
  { WriteScript.sample with storageFault := some (.rename (.other "EIO")) }

/-- Index and storage agree; a write over the stored file fails at its rename and is
undone; the file keeps its content and loses its entry. -/
theorem overwrite_loses_entry : ∃ w w' s₀ e,
    run IndexState.step .start firstEntry = some s₀ ∧ w.db = s₀.db ∧
      (∀ path, IsRawPath path → Requests.AgreeAt .withDefaults w path) ∧
      failedOverwrite.Answered ∧
      FileOp.withDefaults.write w ⟨"alice", .nil, none, "a.md", "y"⟩ failedOverwrite =
        (.replied (.error e) none, w') ∧
      ¬ Unchanged w w' := by
  let second : World → Outcome × World := fun w =>
    FileOp.withDefaults.write w ⟨"alice", .nil, none, "a.md", "y"⟩ failedOverwrite
  rcases exists_after_firstEntry with ⟨w, s₀, hboth, hrun, hdb, hagree⟩
  have hend : (((FileRequest.write World.sampleWrite).indexStep .withDefaults .fresh
      WriteScript.sample.response 0).bind (FileRequest.write World.sampleWrite).storeStep).map
        (fun w => ((second w).1, (w.db.entryRows World.samplePath).1,
          ((second w).2.db.entryRows World.samplePath).1)) =
        some (.replied (.error (.storage ⟨UnixPath.pieces World.samplePath, .other "EIO"⟩)) none,
          [("raw", 1)], []) := by
    decide +kernel
  rw [hboth, Option.map_some, Option.some.injEq, Prod.mk.injEq, Prod.mk.injEq] at hend
  rcases hend with ⟨hreply, hbefore, hafter⟩
  refine ⟨w, (second w).2, s₀, _, hrun, hdb, hagree, ⟨rfl, rfl, rfl, rfl, rfl, rfl⟩,
    Prod.ext hreply rfl, ?_⟩
  intro hunchanged
  rw [hunchanged.entries World.samplePath, hbefore] at hafter
  contradiction

end Memory
end MemoryHub
