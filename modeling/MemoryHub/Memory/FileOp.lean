import MemoryHub.Llm.Embedder
import MemoryHub.Memory.Chunking
import MemoryHub.Memory.IndexImage
import MemoryHub.Memory.Storage

/-!
# File operations

A short-lived actor handles one request: it sends messages to the embedder, the
indexer and storage and waits for each reply.  What becomes of each message, what the
provider answers, which statement or system call fails and where the process dies is
the request's script.

Main results:

- Theorem `buildInsert_eq_ok`: the entry a write asks for is made of the chunks of its
  content.
- Theorem `sendInsert_cases`, `sendDelete_cases`: what the index messages can do to an
  index whose entries are built from the recorded contents.
- Theorem `write_cases`, `delete_cases`: every way a request can go.
-/

namespace MemoryHub
namespace Memory

open FileSystem Llm

/-! ## The shared actors -/

/-- The state of storage and index.  `built` is no part of the program: it records
the content from which each index entry was built. -/
structure World where
  fs : Fs
  db : IndexDb
  built : String → Option String

/-- No files, a new index. -/
def World.fresh : World :=
  ⟨.empty, .fresh, fun _ => none⟩

/-- What becomes of a message: it cannot be sent; it is accepted but never handled; it
is handled but the reply never comes; or it is answered. -/
inductive Delivery where
  | unsent
  | dropped
  | unanswered
  | answered
deriving DecidableEq, Repr

/-- Whether the receiver handles the message. -/
def Delivery.handled : Delivery → Bool
  | .unsent | .dropped => false
  | .unanswered | .answered => true

/-- What the sender gets: `send(..).await?.await?`. -/
def Delivery.receive {α : Type} (d : Delivery) (reply : α) : Except MemoryError α :=
  match d with
  | .unsent => .error .sendError
  | .dropped | .unanswered => .error .recvError
  | .answered => .ok reply

/-- The second `?` on a reply. -/
def propagate {ε α : Type} (wrap : ε → MemoryError) :
    Except MemoryError (Except ε α) → Except MemoryError α
  | .error e => .error e
  | .ok (.error e) => .error (wrap e)
  | .ok (.ok a) => .ok a

/-- A sender gets through with what the receiver has replied. -/
theorem propagate_receive_eq_ok {ε α : Type} {wrap : ε → MemoryError} {d : Delivery}
    {reply : Except ε α} {a : α} :
    propagate wrap (d.receive reply) = .ok a ↔ d = .answered ∧ reply = .ok a := by
  cases d with
  | answered => cases reply <;> simp [Delivery.receive, propagate]
  | unsent | dropped | unanswered => simp [Delivery.receive, propagate]

/-- Only a receiver that has handled the message can reply with success. -/
theorem handled_of_propagate {ε α : Type} {wrap : ε → MemoryError} {d : Delivery}
    {reply : Except ε α} {a : α} (h : propagate wrap (d.receive reply) = .ok a) :
    d.handled = true := by
  rw [(propagate_receive_eq_ok.mp h).1]
  rfl

namespace World

/-- Send `IndexInsert`. -/
def sendInsert (w : World) (d : Delivery) (msg : IndexInsert) (content : String) (now : Int)
    (fault : Option IndexFault) : Except MemoryError Unit × World :=
  if d.handled then
    match handleInsert w.db msg now fault with
    | (.ok (), db) =>
        (propagate .indexer (d.receive (.ok ())),
          { w with db := db, built := Function.update w.built msg.path (some content) })
    | (.error e, db) => (propagate .indexer (d.receive (.error e)), { w with db := db })
  else (propagate .indexer (d.receive (.ok ())), w)

/-- Send `IndexDelete`. -/
def sendDelete (w : World) (d : Delivery) (path : String) (fault : Option IndexFault) :
    Except MemoryError Unit × World :=
  if d.handled then
    match handleDelete w.db path fault with
    | (.ok (), db) =>
        (propagate .indexer (d.receive (.ok ())),
          { w with db := db, built := Function.update w.built path none })
    | (.error e, db) => (propagate .indexer (d.receive (.error e)), { w with db := db })
  else (propagate .indexer (d.receive (.ok ())), w)

/-- Send `StorageWrite`. -/
def sendStorageWrite (w : World) (d : Delivery) (path content : String)
    (fault : Option StorageFault) : Except MemoryError (Except StorageError Unit) × World :=
  if d.handled then
    match storageWrite w.fs path content fault with
    | (r, fs) => (d.receive r, { w with fs := fs })
  else (d.receive (.ok ()), w)

/-- Send `StorageDelete`. -/
def sendStorageDelete (w : World) (d : Delivery) (path : String)
    (fault : Option StorageFault) : Except MemoryError Unit × World :=
  if d.handled then
    match storageDelete w.fs path fault with
    | (r, fs) => (propagate .storage (d.receive r), { w with fs := fs })
  else (propagate .storage (d.receive (.ok ())), w)

end World

/-! ## Requests -/

/-- The actor's own fields, and the dimension the embedder is pinned to. -/
structure FileOp where
  chunkSize : Nat
  chunkOverlap : Nat
  embeddingDim : Option Nat
deriving DecidableEq, Repr

/-- Under the default configuration. -/
def FileOp.withDefaults : FileOp where
  chunkSize := 400
  chunkOverlap := 80
  embeddingDim := none

/-- The steps after which the process can die. -/
inductive Stage where
  | embedded
  | indexed
  | stored
deriving DecidableEq, Repr

/-- What happens to the messages of a write. -/
structure WriteScript where
  embed : Delivery
  response : Except LlmError EmbedResult
  index : Delivery
  now : Int
  indexFault : Option IndexFault
  storage : Delivery
  storageFault : Option StorageFault
  undo : Delivery
  undoFault : Option IndexFault
  crash : Option Stage

/-- Every message is answered, and no statement and no call fails. -/
def WriteScript.answered (response : Except LlmError EmbedResult) (now : Int) : WriteScript where
  embed := .answered
  response := response
  index := .answered
  now := now
  indexFault := none
  storage := .answered
  storageFault := none
  undo := .answered
  undoFault := none
  crash := none

/-- A script for content of one chunk. -/
def WriteScript.sample : WriteScript :=
  .answered (.ok ⟨"m", [⟨[0x3f800000], Embedding.one_length_lt⟩]⟩) 0

/-- What happens to the messages of a delete. -/
structure DeleteScript where
  index : Delivery
  indexFault : Option IndexFault
  storage : Delivery
  storageFault : Option StorageFault
  crash : Option Stage

/-- Every message is answered, and no statement and no call fails. -/
def DeleteScript.answered : DeleteScript where
  index := .answered
  indexFault := none
  storage := .answered
  storageFault := none
  crash := none

/-- How a request ends: the process dies, or the request is replied to; a successful
one has notified the synthesizer. -/
inductive Outcome where
  | crashed
  | replied (result : Except MemoryError Unit) (notified : Option FileChanged)
deriving DecidableEq

namespace FileOp

/-- Steps 1 to 3 of a write: chunk, embed, and build the index message. -/
def buildInsert (op : FileOp) (path content : String) (d : Delivery)
    (response : Except LlmError EmbedResult) : Except MemoryError IndexInsert :=
  let textChunks := chunkText content op.chunkSize op.chunkOverlap
  let texts := textChunks.map TextChunk.text
  let embedResult : Except MemoryError EmbedResult :=
    if texts.isEmpty then .ok ⟨"", []⟩
    else propagate .llm (d.receive (embed texts op.embeddingDim response))
  match embedResult with
  | .error e => .error e
  | .ok r =>
      .ok ⟨path, "raw", UInt64.ofNat content.utf8ByteSize, r.model,
        (textChunks.zip r.embeddings).map fun c => ⟨c.1.text, c.1.startLine, c.1.endLine, c.2⟩⟩

/-- `Handler<FileOpWrite>`. -/
def write (op : FileOp) (w : World) (msg : FileOpWrite) (s : WriteScript) : Outcome × World :=
  match getRawPath msg.username msg.agentId msg.project msg.filename with
  | .error e => (.replied (.error e) none, w)
  | .ok path =>
      match op.buildInsert path msg.content s.embed s.response with
      | .error e => (.replied (.error e) none, w)
      | .ok insert =>
          if s.crash = some .embedded then (.crashed, w)
          else
            match w.sendInsert s.index insert msg.content s.now s.indexFault with
            | (.error e, w₁) => (.replied (.error e) none, w₁)
            | (.ok (), w₁) =>
                if s.crash = some .indexed then (.crashed, w₁)
                else
                  match w₁.sendStorageWrite s.storage path msg.content s.storageFault with
                  | (.error e, w₂) => (.replied (.error e) none, w₂)
                  | (.ok (.error e), w₂) =>
                      if s.crash = some .stored then (.crashed, w₂)
                      else
                        -- The outcome of the undo is only logged.
                        (.replied (.error (.storage e)) none,
                          (w₂.sendDelete s.undo path s.undoFault).2)
                  | (.ok (.ok ()), w₂) =>
                      if s.crash = some .stored then (.crashed, w₂)
                      else (.replied (.ok ()) (some ⟨msg.username, msg.agentId, path⟩), w₂)

/-- `Handler<FileOpRead>`, with its message answered. -/
def read (w : World) (msg : FileOpRead) : Except MemoryError (Option String) :=
  match getRawPath msg.username msg.agentId msg.project msg.filename with
  | .error e => .error e
  | .ok path => propagate .storage (.ok (storageRead w.fs path))

/-- `Handler<FileOpDelete>`. -/
def delete (w : World) (msg : FileOpDelete) (s : DeleteScript) : Outcome × World :=
  match getRawPath msg.username msg.agentId msg.project msg.filename with
  | .error e => (.replied (.error e) none, w)
  | .ok path =>
      match w.sendDelete s.index path s.indexFault with
      | (.error e, w₁) => (.replied (.error e) none, w₁)
      | (.ok (), w₁) =>
          if s.crash = some .indexed then (.crashed, w₁)
          else
            match w₁.sendStorageDelete s.storage path s.storageFault with
            | (.error e, w₂) => (.replied (.error e) none, w₂)
            | (.ok (), w₂) =>
                if s.crash = some .stored then (.crashed, w₂)
                else (.replied (.ok ()) (some ⟨msg.username, msg.agentId, path⟩), w₂)

/-! ## Entries of a content -/

/-- The entry is built from the content: one chunk for each of the content's text
chunks, in order. -/
structure BuiltFrom (op : FileOp) (content : String) (e : Entry) : Prop where
  source : e.source = "raw"
  size : e.size = UInt64.ofNat content.utf8ByteSize
  chunks : (e.chunks.map fun c => (⟨c.text, c.startLine, c.endLine⟩ : TextChunk)) =
    chunkText content op.chunkSize op.chunkOverlap

/-- A vector beside each text chunk leaves the text chunks as they are. -/
theorem textChunks_zip {chunks : List TextChunk} {embeddings : List Embedding}
    (h : embeddings.length = chunks.length) :
    (((chunks.zip embeddings).map fun c =>
        (⟨c.1.text, c.1.startLine, c.1.endLine, c.2⟩ : Chunk)).map fun c =>
      (⟨c.text, c.startLine, c.endLine⟩ : TextChunk)) = chunks := by
  have hfst : (chunks.zip embeddings).map Prod.fst = chunks := List.map_fst_zip (by omega)
  rw [List.map_map]
  exact hfst

/-- The message of a write carries one vector of an accepted response for each text chunk;
content without chunks is not embedded. -/
theorem buildInsert_cases {op : FileOp} {path content : String} {d : Delivery}
    {response : Except LlmError EmbedResult} {insert : IndexInsert}
    (h : op.buildInsert path content d response = .ok insert) :
    ∃ r : EmbedResult, r.embeddings.length =
        (chunkText content op.chunkSize op.chunkOverlap).length ∧
      (chunkText content op.chunkSize op.chunkOverlap ≠ [] → response = .ok r) ∧
      insert = ⟨path, "raw", UInt64.ofNat content.utf8ByteSize, r.model,
        ((chunkText content op.chunkSize op.chunkOverlap).zip r.embeddings).map fun c =>
          ⟨c.1.text, c.1.startLine, c.1.endLine, c.2⟩⟩ := by
  unfold buildInsert at h
  simp only at h
  split at h <;> rename_i hembed
  · contradiction
  · rename_i r
    cases h
    have hr : (chunkText content op.chunkSize op.chunkOverlap = [] ∧ r = ⟨"", []⟩) ∨
        embed ((chunkText content op.chunkSize op.chunkOverlap).map TextChunk.text)
          op.embeddingDim response = .ok r := by
      split at hembed <;> rename_i hempty
      · cases hembed
        have hnil := List.isEmpty_iff.mp hempty
        rw [List.map_eq_nil_iff] at hnil
        exact Or.inl ⟨hnil, rfl⟩
      · exact Or.inr (propagate_receive_eq_ok.mp hembed).2
    rcases hr with ⟨hnone, rfl⟩ | hok
    · exact ⟨_, by rw [hnone]; rfl, fun hne => absurd hnone hne, rfl⟩
    · have hlen := length_of_embed hok
      rw [List.length_map] at hlen
      exact ⟨r, hlen, fun _ => response_of_embed hok, rfl⟩

/-- The message of a write asks for an entry built from its content. -/
theorem buildInsert_eq_ok {op : FileOp} {path content : String} {d : Delivery}
    {response : Except LlmError EmbedResult} {insert : IndexInsert}
    (h : op.buildInsert path content d response = .ok insert) :
    insert.path = path ∧ BuiltFrom op content insert.entry := by
  rcases buildInsert_cases h with ⟨r, hlen, -, rfl⟩
  exact ⟨rfl, rfl, rfl, textChunks_zip hlen⟩

end FileOp

/-- The chunk rows of a path are the chunks of its entry. -/
theorem Image.textChunks_eq {m : String → Option Entry} {db : IndexDb} (himage : Image m db)
    {path : String} {e : Entry} (hm : m path = some e) :
    ((db.chunks.rows.filter fun r => r.path = path).map fun r =>
      (⟨r.text, r.startLine, r.endLine⟩ : TextChunk)) =
        e.chunks.map fun c => ⟨c.text, c.startLine, c.endLine⟩ := by
  have hrows := himage.chunks path
  rw [hm, Option.map_some, Option.getD_some] at hrows
  have htext := congrArg (List.map fun d : String × UInt32 × UInt32 × String × String =>
    (⟨d.2.2.2.2, d.2.1, d.2.2.1⟩ : TextChunk)) hrows
  rw [List.map_map, chunkData, List.map_map] at htext
  apply Eq.trans htext
  have hfst : e.chunks.zipIdx.map Prod.fst = e.chunks := List.zipIdx_map_fst 0 e.chunks
  conv_rhs => rw [← hfst, List.map_map]
  rfl

/-! ## The index messages -/

/-- An entry is there exactly if a content is recorded, and it is built from it. -/
def Matches (op : FileOp) : Option String → Option Entry → Prop
  | some content, some e => FileOp.BuiltFrom op content e
  | none, none => True
  | _, _ => False

/-- The index is the image of a map that has for each raw path the entry built from
the recorded content. -/
def Indexed (op : FileOp) (w : World) : Prop :=
  ∃ m, Image m w.db ∧ ∀ path, IsRawPath path → Matches op (w.built path) (m path)

theorem World.fresh_indexed (op : FileOp) : Indexed op World.fresh :=
  ⟨fun _ => none, image_fresh, fun _ _ => trivial⟩

/-- What storage does is of no concern to the index. -/
theorem indexed_of_eq {op : FileOp} {w w' : World} (hindexed : Indexed op w)
    (hdb : w'.db = w.db) (hbuilt : w'.built = w.built) : Indexed op w' := by
  rcases hindexed with ⟨m, himage, hmatches⟩
  exact ⟨m, by rw [hdb]; exact himage, by rw [hbuilt]; exact hmatches⟩

/-- An index message whose success maps the path to `v` and records `content` there: it keeps the
index, leaves storage alone, and records the content if it takes effect; when it is answered
with success it has. -/
theorem indexMessage_cases {op : FileOp} {w w' : World} {d : Delivery} {path : String}
    {content : Option String} {v : Option Entry} {result : Except IndexError Unit × IndexDb}
    {r : Except MemoryError Unit} (hindexed : Indexed op w)
    (h : (if d.handled then
        match result with
        | (.ok (), db) =>
            (propagate .indexer (d.receive (.ok ())),
              { w with db := db, built := Function.update w.built path content })
        | (.error e, db) => (propagate .indexer (d.receive (.error e)), { w with db := db })
      else (propagate .indexer (d.receive (.ok ())), w)) = (r, w'))
    (hhandled : ∀ m, Image m w.db → Handled m (Function.update m path v) result)
    (hmatch : Matches op content v) :
    w'.fs = w.fs ∧ Indexed op w' ∧
      ((w'.built = w.built ∧ r ≠ .ok ()) ∨
        (w'.built = Function.update w.built path content ∧ d.handled = true ∧
          result.1 = .ok () ∧ (r = .ok () ↔ d = .answered))) := by
  rcases hindexed with ⟨m, himage, hmatches⟩
  have hhandled := hhandled m himage
  split at h <;> rename_i hd
  · rcases result with ⟨result, db⟩
    cases result with
    | ok _ =>
        cases h
        rcases hhandled with ⟨-, himage'⟩ | ⟨e, herr, -⟩
        · refine ⟨rfl, ⟨_, himage', ?_⟩, Or.inr ⟨rfl, hd, rfl, ?_⟩⟩
          · intro q hraw
            by_cases hq : q = path
            · simp only [hq, Function.update_self]
              exact hmatch
            · simp only [Function.update_of_ne hq]
              exact hmatches q hraw
          · simp [propagate_receive_eq_ok]
        · contradiction
    | error e =>
        cases h
        rcases hhandled with ⟨hok, -⟩ | ⟨-, -, himage', -⟩
        · contradiction
        · exact ⟨rfl, ⟨m, himage', hmatches⟩, Or.inl ⟨rfl, by simp [propagate_receive_eq_ok]⟩⟩
  · cases h
    refine ⟨rfl, ⟨m, himage, hmatches⟩, Or.inl ⟨rfl, ?_⟩⟩
    intro hr
    exact hd (handled_of_propagate hr)

/-- An insert keeps the index, leaves storage alone, and records its content if it
takes effect; when it is answered with success it has. -/
theorem sendInsert_cases {op : FileOp} {w w' : World} {d : Delivery} {msg : IndexInsert}
    {content : String} {now : Int} {fault : Option IndexFault} {r : Except MemoryError Unit}
    (hindexed : Indexed op w) (hbuilt : FileOp.BuiltFrom op content msg.entry)
    (h : w.sendInsert d msg content now fault = (r, w')) :
    w'.fs = w.fs ∧ Indexed op w' ∧
      ((w'.built = w.built ∧ r ≠ .ok ()) ∨
        (w'.built = Function.update w.built msg.path (some content) ∧ d.handled = true ∧
          (handleInsert w.db msg now fault).1 = .ok () ∧ (r = .ok () ↔ d = .answered))) := by
  have hmatch : Matches op (some content) (some msg.entry) := hbuilt
  exact indexMessage_cases hindexed h
    (fun _ himage => handleInsert_image himage msg now fault) hmatch

/-- A delete keeps the index, leaves storage alone, and clears the record if it takes
effect; when it is answered with success it has. -/
theorem sendDelete_cases {op : FileOp} {w w' : World} {d : Delivery} {path : String}
    {fault : Option IndexFault} {r : Except MemoryError Unit} (hindexed : Indexed op w)
    (h : w.sendDelete d path fault = (r, w')) :
    w'.fs = w.fs ∧ Indexed op w' ∧
      ((w'.built = w.built ∧ r ≠ .ok ()) ∨
        (w'.built = Function.update w.built path none ∧ d.handled = true ∧
          (handleDelete w.db path fault).1 = .ok () ∧ (r = .ok () ↔ d = .answered))) := by
  have hmatch : Matches op none none := trivial
  exact indexMessage_cases hindexed h
    (fun _ himage => handleDelete_image himage path fault) hmatch

/-- A delete that is handled without a failing statement takes effect. -/
theorem sendDelete_takes {op : FileOp} {w : World} {d : Delivery} {path : String}
    (hindexed : Indexed op w) (hd : d.handled = true) :
    (w.sendDelete d path none).2.built = Function.update w.built path none := by
  rcases hindexed with ⟨m, himage, -⟩
  rcases doDelete_image himage path with ⟨db', hok, -⟩
  have hhandle : handleDelete w.db path none = (.ok (), db') := by
    simp [handleDelete, transaction, hok]
  simp only [World.sendDelete, hd, if_true, hhandle]

/-! ## What the requests do -/

namespace World

@[simp]
theorem sendInsert_fs (w : World) (d : Delivery) (msg : IndexInsert) (content : String)
    (now : Int) (fault : Option IndexFault) :
    (w.sendInsert d msg content now fault).2.fs = w.fs := by
  unfold sendInsert
  split
  · split <;> rfl
  · rfl

@[simp]
theorem sendDelete_fs (w : World) (d : Delivery) (path : String) (fault : Option IndexFault) :
    (w.sendDelete d path fault).2.fs = w.fs := by
  unfold sendDelete
  split
  · split <;> rfl
  · rfl

/-- A storage message leaves the index alone; if it is not handled it does nothing. -/
theorem sendStorageWrite_cases {w w' : World} {d : Delivery} {path content : String}
    {fault : Option StorageFault} {r : Except MemoryError (Except StorageError Unit)}
    (h : w.sendStorageWrite d path content fault = (r, w')) :
    (d.handled = false ∧ w' = w ∧ ∃ e, r = .error e) ∨
      (d.handled = true ∧ w'.db = w.db ∧ w'.built = w.built ∧ ∃ result,
        storageWrite w.fs path content fault = (result, w'.fs) ∧ r = d.receive result) := by
  unfold sendStorageWrite at h
  split at h <;> rename_i hd
  · cases h
    exact Or.inr ⟨hd, rfl, rfl, _, rfl, rfl⟩
  · cases h
    refine Or.inl ⟨by simpa using hd, rfl, ?_⟩
    cases d <;> simp [Delivery.handled, Delivery.receive] at hd ⊢

/-- A storage message leaves the index alone; if it is not handled it does nothing. -/
theorem sendStorageDelete_cases {w w' : World} {d : Delivery} {path : String}
    {fault : Option StorageFault} {r : Except MemoryError Unit}
    (h : w.sendStorageDelete d path fault = (r, w')) :
    (d.handled = false ∧ w' = w ∧ r ≠ .ok ()) ∨
      (d.handled = true ∧ w'.db = w.db ∧ w'.built = w.built ∧ ∃ result,
        storageDelete w.fs path fault = (result, w'.fs) ∧ (r = .ok () → result = .ok ())) := by
  unfold sendStorageDelete at h
  split at h <;> rename_i hd
  · cases h
    exact Or.inr ⟨hd, rfl, rfl, _, rfl, fun hr => (propagate_receive_eq_ok.mp hr).2⟩
  · cases h
    refine Or.inl ⟨by simpa using hd, rfl, ?_⟩
    intro hr
    exact hd (handled_of_propagate hr)

end World

namespace FileOp

/-- Everything a write can do: stop before the index message, after it, after the
storage message, or undo the index entry. -/
theorem write_cases {op : FileOp} {w w' : World} {msg : FileOpWrite} {s : WriteScript}
    {o : Outcome} (h : op.write w msg s = (o, w')) :
    (w' = w ∧ ∀ n, o ≠ .replied (.ok ()) n) ∨
      ∃ path insert r w₁, getRawPath msg.username msg.agentId msg.project msg.filename = .ok path ∧
        op.buildInsert path msg.content s.embed s.response = .ok insert ∧
        s.crash ≠ some .embedded ∧
        w.sendInsert s.index insert msg.content s.now s.indexFault = (r, w₁) ∧
        ((w' = w₁ ∧ (∀ n, o ≠ .replied (.ok ()) n) ∧ (r = .ok () → s.crash = some .indexed)) ∨
          (r = .ok () ∧ s.crash ≠ some .indexed ∧ ∃ r₂ w₂,
            w₁.sendStorageWrite s.storage path msg.content s.storageFault = (r₂, w₂) ∧
            ((w' = w₂ ∧ (∀ n, o = .replied (.ok ()) n → r₂ = .ok (.ok ())) ∧
                ∀ e, r₂ = .ok (.error e) → s.crash = some .stored) ∨
              (∃ e, r₂ = .ok (.error e) ∧ s.crash ≠ some .stored ∧
                o = .replied (.error (.storage e)) none ∧
                w' = (w₂.sendDelete s.undo path s.undoFault).2)))) := by
  unfold write at h
  cases hpath : getRawPath msg.username msg.agentId msg.project msg.filename with
  | error e =>
      rw [hpath] at h
      cases h
      exact Or.inl ⟨rfl, by simp⟩
  | ok path =>
      simp only [hpath] at h
      cases hbuild : op.buildInsert path msg.content s.embed s.response with
      | error e =>
          rw [hbuild] at h
          cases h
          exact Or.inl ⟨rfl, by simp⟩
      | ok insert =>
          simp only [hbuild] at h
          split at h <;> rename_i hembedded
          · cases h
            exact Or.inl ⟨rfl, by simp⟩
          · rcases hsend : w.sendInsert s.index insert msg.content s.now s.indexFault with ⟨r, w₁⟩
            simp only [hsend] at h
            refine Or.inr ⟨path, insert, r, w₁, rfl, hbuild, hembedded, hsend, ?_⟩
            cases r with
            | error e =>
                cases h
                exact Or.inl ⟨rfl, by simp, by simp⟩
            | ok _ =>
                simp only at h
                split at h <;> rename_i hindexed
                · cases h
                  exact Or.inl ⟨rfl, by simp, fun _ => hindexed⟩
                · refine Or.inr ⟨rfl, hindexed, ?_⟩
                  rcases hstore : w₁.sendStorageWrite s.storage path msg.content s.storageFault
                    with ⟨r₂, w₂⟩
                  simp only [hstore] at h
                  refine ⟨r₂, w₂, rfl, ?_⟩
                  cases r₂ with
                  | error e =>
                      cases h
                      exact Or.inl ⟨rfl, by simp, by simp⟩
                  | ok result =>
                      cases result with
                      | error e =>
                          simp only at h
                          split at h <;> rename_i hstored
                          · cases h
                            exact Or.inl ⟨rfl, by simp, fun _ _ => hstored⟩
                          · cases h
                            exact Or.inr ⟨e, rfl, hstored, rfl, rfl⟩
                      | ok _ =>
                          simp only at h
                          split at h
                          · cases h
                            exact Or.inl ⟨rfl, by simp, by simp⟩
                          · cases h
                            exact Or.inl ⟨rfl, by simp, by simp⟩

/-- Everything a delete can do: stop before the storage message or after it. -/
theorem delete_cases {w w' : World} {msg : FileOpDelete} {s : DeleteScript}
    {o : Outcome} (h : delete w msg s = (o, w')) :
    (w' = w ∧ ∀ n, o ≠ .replied (.ok ()) n) ∨
      ∃ path r w₁, getRawPath msg.username msg.agentId msg.project msg.filename = .ok path ∧
        w.sendDelete s.index path s.indexFault = (r, w₁) ∧
        ((w' = w₁ ∧ ∀ n, o ≠ .replied (.ok ()) n) ∨
          (r = .ok () ∧ s.crash ≠ some .indexed ∧ ∃ r₂,
            w₁.sendStorageDelete s.storage path s.storageFault = (r₂, w') ∧
            ∀ n, o = .replied (.ok ()) n → r₂ = .ok ())) := by
  unfold delete at h
  cases hpath : getRawPath msg.username msg.agentId msg.project msg.filename with
  | error e =>
      rw [hpath] at h
      cases h
      exact Or.inl ⟨rfl, by simp⟩
  | ok path =>
      simp only [hpath] at h
      rcases hsend : w.sendDelete s.index path s.indexFault with ⟨r, w₁⟩
      simp only [hsend] at h
      refine Or.inr ⟨path, r, w₁, rfl, hsend, ?_⟩
      cases r with
      | error e =>
          cases h
          exact Or.inl ⟨rfl, by simp⟩
      | ok _ =>
          simp only at h
          split at h <;> rename_i hindexed
          · cases h
            exact Or.inl ⟨rfl, by simp⟩
          · refine Or.inr ⟨rfl, hindexed, ?_⟩
            rcases hstore : w₁.sendStorageDelete s.storage path s.storageFault with ⟨r₂, w₂⟩
            simp only [hstore] at h
            cases r₂ with
            | error e =>
                cases h
                exact ⟨_, rfl, by simp⟩
            | ok _ =>
                simp only at h
                split at h
                · cases h
                  exact ⟨_, rfl, by simp⟩
                · cases h
                  exact ⟨_, rfl, by simp⟩

end FileOp
end Memory
end MemoryHub
