import MemoryHub.Lib.Prog
import MemoryHub.Memory.FileOp
import MemoryHub.Memory.Search

/-!
# Short-lived actors

Every request has a short-lived actor of its own, which sends messages to the embedder, the
index and storage and waits for each reply.  Between two messages other actors may have
theirs handled, so an actor is a program here: it is run alone by its handler, and
beside others by a schedule.

Main results:

- Theorem `exec_writeProg`, `exec_readProg`, `exec_deleteProg`: a file operation with nothing
  beside it does what its handler does.
- Theorem `writeProg_sends`, `readProg_sends`, `deleteProg_sends`: all the messages a file
  operation can send, whatever it gets back.
-/

namespace MemoryHub
namespace Memory

open Collections FileSystem Llm
open Prog (exec exec_bind perform Meets)

/-! ## Messages to the shared actors -/

/-- What a search of the index meets: a failure, or that the vector table is not seen.  The code
takes a failed look for the table for its absence. -/
inductive SearchFault where
  | failed (e : IndexError)
  | tableUnseen
deriving DecidableEq, Repr

/-- A message to the embedder, the index or storage, with what becomes of it. -/
inductive ActorCall where
  | embed (d : Delivery) (expectedDim : Option Nat) (texts : List String)
      (response : Except LlmError EmbedResult)
  | indexInsert (d : Delivery) (msg : IndexInsert) (content : String) (now : Int)
      (fault : Option IndexFault)
  | indexDelete (d : Delivery) (path : String) (fault : Option IndexFault)
  | indexIsEmpty (d : Delivery) (fault : Option IndexError)
  | indexSearch (d : Delivery) (msg : IndexSearch) (knn : Knn Float32)
      (order : IterationOrder (Σ _ : String, SearchResult Float32)) (fault : Option SearchFault)
  | storageWrite (d : Delivery) (path content : String) (fault : Option StorageFault)
  | storageRead (d : Delivery) (path : String)
  | storageDelete (d : Delivery) (path : String) (fault : Option StorageFault)

/-- What the sender gets. -/
def ActorCall.Response : ActorCall → Type
  | .embed .. => Except MemoryError EmbedResult
  | .indexInsert .. => Except MemoryError Unit
  | .indexDelete .. => Except MemoryError Unit
  | .indexIsEmpty .. => Except MemoryError Bool
  | .indexSearch .. => Except MemoryError (List (SearchResult Float32))
  | .storageWrite .. => Except MemoryError (Except StorageError Unit)
  | .storageRead .. => Except MemoryError (Option String)
  | .storageDelete .. => Except MemoryError Unit

/-- `Handler<IndexIsEmpty>`; the fault is what the query fails with. -/
def handleIsEmpty (db : IndexDb) (fault : Option IndexError) : Except IndexError Bool :=
  match fault with
  | some e => .error e
  | none => .ok db.chunks.rows.isEmpty

/-- `Handler<IndexSearch>`. -/
def handleSearch (db : IndexDb) (knn : Knn Float32)
    (order : IterationOrder (Σ _ : String, SearchResult Float32)) (msg : IndexSearch)
    (fault : Option SearchFault) : Except IndexError (List (SearchResult Float32)) :=
  match fault with
  | some (.failed e) => .error e
  | some .tableUnseen => .ok []
  | none => doSearch db knn order msg

/-- The actors handle a message. -/
def World.answer : (c : ActorCall) → World → c.Response × World
  | .embed d expectedDim texts response, w =>
      (propagate .llm (d.receive (Llm.embed texts expectedDim response)), w)
  | .indexInsert d msg content now fault, w => w.sendInsert d msg content now fault
  | .indexDelete d path fault, w => w.sendDelete d path fault
  | .indexIsEmpty d fault, w =>
      (propagate .indexer (d.receive (handleIsEmpty w.db fault)), w)
  | .indexSearch d msg knn order fault, w =>
      (propagate .indexer (d.receive (handleSearch w.db knn order msg fault)), w)
  | .storageWrite d path content fault, w => w.sendStorageWrite d path content fault
  | .storageRead d path, w => (propagate .storage (d.receive (storageRead w.fs path)), w)
  | .storageDelete d path fault, w => w.sendStorageDelete d path fault

/-- A short-lived actor, message by message. -/
abbrev ActorProg (α : Type) : Type :=
  Prog ActorCall ActorCall.Response α

namespace FileOp

/-! ### One message and what comes back -/

def sendIndexInsert (d : Delivery) (msg : IndexInsert) (content : String) (now : Int)
    (fault : Option IndexFault) : ActorProg (Except MemoryError Unit) :=
  perform (ActorCall.indexInsert d msg content now fault)

def sendIndexDelete (d : Delivery) (path : String) (fault : Option IndexFault) :
    ActorProg (Except MemoryError Unit) :=
  perform (ActorCall.indexDelete d path fault)

def sendStorageWrite (d : Delivery) (path content : String) (fault : Option StorageFault) :
    ActorProg (Except MemoryError (Except StorageError Unit)) :=
  perform (ActorCall.storageWrite d path content fault)

def sendStorageRead (d : Delivery) (path : String) :
    ActorProg (Except MemoryError (Option String)) :=
  perform (ActorCall.storageRead d path)

def sendStorageDelete (d : Delivery) (path : String) (fault : Option StorageFault) :
    ActorProg (Except MemoryError Unit) :=
  perform (ActorCall.storageDelete d path fault)

section

variable (w : World) (d : Delivery) (path : String)

@[simp]
theorem exec_sendIndexInsert (msg : IndexInsert) (content : String) (now : Int)
    (fault : Option IndexFault) :
    exec World.answer (sendIndexInsert d msg content now fault) w =
      w.sendInsert d msg content now fault :=
  rfl

@[simp]
theorem exec_sendIndexDelete (fault : Option IndexFault) :
    exec World.answer (sendIndexDelete d path fault) w = w.sendDelete d path fault :=
  rfl

@[simp]
theorem exec_sendStorageWrite (content : String) (fault : Option StorageFault) :
    exec World.answer (sendStorageWrite d path content fault) w =
      w.sendStorageWrite d path content fault :=
  rfl

@[simp]
theorem exec_sendStorageDelete (fault : Option StorageFault) :
    exec World.answer (sendStorageDelete d path fault) w = w.sendStorageDelete d path fault :=
  rfl

end

/-! ### The handlers -/

/-- `Handler<FileOpWrite>`: the reply, and what the synthesizer is told. -/
def writeProg (op : FileOp) (msg : FileOpWrite) (s : WriteScript) :
    ActorProg (Except MemoryError Unit × Option FileChanged) :=
  match getRawPath msg.username msg.agentId msg.project msg.filename with
  | .error e => pure (.error e, none)
  | .ok path =>
      match op.buildInsert path msg.content s.embed s.response with
      | .error e => pure (.error e, none)
      | .ok insert => do
          match ← sendIndexInsert s.index insert msg.content s.now s.indexFault with
          | .error e => pure (.error e, none)
          | .ok () => do
              match ← sendStorageWrite s.storage path msg.content s.storageFault with
              | .error e => pure (.error e, none)
              | .ok (.error e) => do
                  -- The outcome of the undo is only logged.
                  let _ ← sendIndexDelete s.undo path s.undoFault
                  pure (.error (.storage e), none)
              | .ok (.ok ()) => pure (.ok (), some ⟨msg.username, msg.agentId, path⟩)

/-- `Handler<FileOpRead>`. -/
def readProg (msg : FileOpRead) (d : Delivery) : ActorProg (Except MemoryError (Option String)) :=
  match getRawPath msg.username msg.agentId msg.project msg.filename with
  | .error e => pure (.error e)
  | .ok path => sendStorageRead d path

/-- `Handler<FileOpDelete>`: the reply, and what the synthesizer is told. -/
def deleteProg (msg : FileOpDelete) (s : DeleteScript) :
    ActorProg (Except MemoryError Unit × Option FileChanged) :=
  match getRawPath msg.username msg.agentId msg.project msg.filename with
  | .error e => pure (.error e, none)
  | .ok path => do
      match ← sendIndexDelete s.index path s.indexFault with
      | .error e => pure (.error e, none)
      | .ok () => do
          match ← sendStorageDelete s.storage path s.storageFault with
          | .error e => pure (.error e, none)
          | .ok () => pure (.ok (), some ⟨msg.username, msg.agentId, path⟩)

/-- With nothing beside it, a write does what the handler does. -/
theorem exec_writeProg (op : FileOp) (w : World) (msg : FileOpWrite) {s : WriteScript}
    (h : s.crash = none) :
    op.write w msg s =
      (.replied (exec World.answer (op.writeProg msg s) w).1.1
        (exec World.answer (op.writeProg msg s) w).1.2,
          (exec World.answer (op.writeProg msg s) w).2) := by
  unfold write writeProg
  cases getRawPath msg.username msg.agentId msg.project msg.filename with
  | error e => rfl
  | ok path =>
      simp only [h, reduceCtorEq, if_false]
      cases op.buildInsert path msg.content s.embed s.response with
      | error e => rfl
      | ok insert =>
          simp only [exec_bind, exec_sendIndexInsert]
          rcases w.sendInsert s.index insert msg.content s.now s.indexFault with ⟨r, w₁⟩
          cases r with
          | error e => rfl
          | ok _ =>
              simp only [exec_bind, exec_sendStorageWrite]
              rcases w₁.sendStorageWrite s.storage path msg.content s.storageFault with
                ⟨r₂, w₂⟩
              cases r₂ with
              | error e => rfl
              | ok stored =>
                  cases stored with
                  | error e => rfl
                  | ok _ => rfl

/-- With nothing beside it, an answered read does what the handler does. -/
theorem exec_readProg (w : World) (msg : FileOpRead) :
    exec World.answer (readProg msg .answered) w = (read w msg, w) := by
  unfold readProg read
  cases getRawPath msg.username msg.agentId msg.project msg.filename with
  | error e => rfl
  | ok path => rfl

/-- With nothing beside it, a delete does what the handler does. -/
theorem exec_deleteProg (w : World) (msg : FileOpDelete) {s : DeleteScript}
    (h : s.crash = none) :
    delete w msg s =
      (.replied (exec World.answer (deleteProg msg s) w).1.1
        (exec World.answer (deleteProg msg s) w).1.2,
          (exec World.answer (deleteProg msg s) w).2) := by
  unfold delete deleteProg
  cases getRawPath msg.username msg.agentId msg.project msg.filename with
  | error e => rfl
  | ok path =>
      simp only [h, reduceCtorEq, if_false, exec_bind, exec_sendIndexDelete]
      rcases w.sendDelete s.index path s.indexFault with ⟨r, w₁⟩
      cases r with
      | error e => rfl
      | ok _ =>
          simp only [exec_bind, exec_sendStorageDelete]
          rcases w₁.sendStorageDelete s.storage path s.storageFault with ⟨r₂, w₂⟩
          cases r₂ with
          | error e => rfl
          | ok _ => rfl

/-! ### Every message they can send -/

/-- The messages of a write. -/
inductive WriteSends (op : FileOp) (msg : FileOpWrite) (s : WriteScript) : ActorCall → Prop where
  | index {path : String} {insert : IndexInsert}
      (hpath : getRawPath msg.username msg.agentId msg.project msg.filename = .ok path)
      (hbuild : op.buildInsert path msg.content s.embed s.response = .ok insert) :
      WriteSends op msg s (.indexInsert s.index insert msg.content s.now s.indexFault)
  | store {path : String}
      (hpath : getRawPath msg.username msg.agentId msg.project msg.filename = .ok path) :
      WriteSends op msg s (.storageWrite s.storage path msg.content s.storageFault)
  | undo {path : String}
      (hpath : getRawPath msg.username msg.agentId msg.project msg.filename = .ok path) :
      WriteSends op msg s (.indexDelete s.undo path s.undoFault)

/-- The message of a read. -/
inductive ReadSends (msg : FileOpRead) (d : Delivery) : ActorCall → Prop where
  | read {path : String}
      (hpath : getRawPath msg.username msg.agentId msg.project msg.filename = .ok path) :
      ReadSends msg d (.storageRead d path)

/-- The messages of a delete. -/
inductive DeleteSends (msg : FileOpDelete) (s : DeleteScript) : ActorCall → Prop where
  | index {path : String}
      (hpath : getRawPath msg.username msg.agentId msg.project msg.filename = .ok path) :
      DeleteSends msg s (.indexDelete s.index path s.indexFault)
  | store {path : String}
      (hpath : getRawPath msg.username msg.agentId msg.project msg.filename = .ok path) :
      DeleteSends msg s (.storageDelete s.storage path s.storageFault)

theorem writeProg_sends (op : FileOp) (msg : FileOpWrite) (s : WriteScript) :
    Meets (fun _ _ => True) (WriteSends op msg s) (fun _ => True) (op.writeProg msg s) := by
  unfold writeProg
  cases hpath : getRawPath msg.username msg.agentId msg.project msg.filename with
  | error e => exact trivial
  | ok path =>
      simp only
      cases hbuild : op.buildInsert path msg.content s.embed s.response with
      | error e => exact trivial
      | ok insert =>
          refine ⟨.index hpath hbuild, ?_⟩
          intro r _
          cases r with
          | error e => exact trivial
          | ok _ =>
              refine ⟨.store hpath, ?_⟩
              intro r₂ _
              cases r₂ with
              | error e => exact trivial
              | ok stored =>
                  cases stored with
                  | ok _ => exact trivial
                  | error e => exact ⟨.undo hpath, fun _ _ => trivial⟩

theorem readProg_sends (msg : FileOpRead) (d : Delivery) :
    Meets (fun _ _ => True) (ReadSends msg d) (fun _ => True) (readProg msg d) := by
  unfold readProg
  cases hpath : getRawPath msg.username msg.agentId msg.project msg.filename with
  | error e => exact trivial
  | ok path => exact ⟨.read hpath, fun _ _ => trivial⟩

theorem deleteProg_sends (msg : FileOpDelete) (s : DeleteScript) :
    Meets (fun _ _ => True) (DeleteSends msg s) (fun _ => True) (deleteProg msg s) := by
  unfold deleteProg
  cases hpath : getRawPath msg.username msg.agentId msg.project msg.filename with
  | error e => exact trivial
  | ok path =>
      refine ⟨.index hpath, ?_⟩
      intro r _
      cases r with
      | error e => exact trivial
      | ok _ =>
          refine ⟨.store hpath, ?_⟩
          intro r₂ _
          cases r₂ with
          | error e => exact trivial
          | ok _ => exact trivial

end FileOp

end Memory
end MemoryHub
