import MemoryHub.Lib.Pool
import MemoryHub.Memory.IndexDimension
import MemoryHub.Memory.SearchOp
import MemoryHub.Memory.UserRegion

/-!
# The memory manager

The manager gives every file request and every search a short-lived actor of its own.  The actors
run side by side; storage and the index handle their messages one at a time, in any order.

Main results:

- Theorem `separated`: with one embedding dimension, the messages of other users are out of
  a user's sight.
- Theorem `users_isolated`: in every interleaving of requests, a user's file operations come as
  far and are answered as if nothing else had been asked for.
- Theorem `searches_find`: in every interleaving of requests, a search finds what the index holds
  at one of its turns.
-/

namespace MemoryHub
namespace Memory

open FileSystem Fs Llm Machine
open Prog (exec exec_bind perform Meets)

/-! ## Dispatch -/

/-- The configuration the manager hands to the actors of its requests, and the dimension the
embedder is pinned to. -/
structure MemoryManager where
  chunkSize : Nat
  chunkOverlap : Nat
  embeddingDim : Option Nat
deriving DecidableEq, Repr

namespace MemoryManager

def fileOp (mm : MemoryManager) : FileOp :=
  ⟨mm.chunkSize, mm.chunkOverlap, mm.embeddingDim⟩

def searchOp (mm : MemoryManager) : SearchOp :=
  ⟨mm.chunkSize, mm.chunkOverlap, mm.embeddingDim⟩

end MemoryManager

/-- The messages for which the manager starts an actor, with what happens on the way. -/
inductive MemoryMessage where
  | write (msg : FileOpWrite) (script : WriteScript)
  | read (msg : FileOpRead) (storage : Delivery)
  | delete (msg : FileOpDelete) (script : DeleteScript)
  | search (msg : Search) (script : SearchScript)

/-- What the actor replies, with what it tells the synthesizer. -/
inductive MemoryReply where
  | changed (result : Except MemoryError Unit) (notified : Option FileChanged)
  | content (result : Except MemoryError (Option String))
  | found (result : Except MemoryError (List (SearchResult Float32)))
deriving DecidableEq

namespace MemoryMessage

/-- The user the message is sent for. -/
def username : MemoryMessage → String
  | .write msg _ => msg.username
  | .read msg _ => msg.username
  | .delete msg _ => msg.username
  | .search msg _ => msg.username

/-- The message is about one file. -/
def isFileOp : MemoryMessage → Bool
  | .search _ _ => false
  | _ => true

/-- The handler of the message. -/
def prog (mm : MemoryManager) : MemoryMessage → ActorProg MemoryReply
  | .write msg script => do
      let (result, notified) ← mm.fileOp.writeProg msg script
      pure (.changed result notified)
  | .read msg storage => do
      let result ← FileOp.readProg msg storage
      pure (.content result)
  | .delete msg script => do
      let (result, notified) ← FileOp.deleteProg msg script
      pure (.changed result notified)
  | .search msg script => do
      let result ← mm.searchOp.prog msg script
      pure (.found result)

/-- What the handler of the message can send. -/
def Sends (mm : MemoryManager) : MemoryMessage → ActorCall → Prop
  | .write msg script => FileOp.WriteSends mm.fileOp msg script
  | .read msg storage => FileOp.ReadSends msg storage
  | .delete msg script => FileOp.DeleteSends msg script
  | .search _ _ => ActorCall.LooksUp

theorem prog_sends (mm : MemoryManager) (message : MemoryMessage) :
    Meets (fun _ _ => True) (message.Sends mm) (fun _ => True) (message.prog mm) := by
  cases message with
  | write msg script => exact (mm.fileOp.writeProg_sends msg script).bind fun _ _ => trivial
  | read msg storage => exact (FileOp.readProg_sends msg storage).bind fun _ _ => trivial
  | delete msg script => exact (FileOp.deleteProg_sends msg script).bind fun _ _ => trivial
  | search msg script => exact (mm.searchOp.prog_looksUp msg script).bind fun _ _ => trivial

end MemoryMessage

/-- A message to the manager: whether an actor can be started, what becomes of the message to
it, and the message. -/
structure Dispatch where
  started : Except MemoryError Unit
  delivery : Delivery
  message : MemoryMessage

/-- The request is a file operation of the user. -/
def Dispatch.IsFileOpOf (username : String) (r : Dispatch) : Prop :=
  r.message.isFileOp = true ∧ r.message.username = username

instance (username : String) (r : Dispatch) : Decidable (r.IsFileOpOf username) :=
  inferInstanceAs (Decidable (_ ∧ _))

/-- `dispatch_file_op`, and the same for a search. -/
def Dispatch.prog (mm : MemoryManager) (r : Dispatch) :
    ActorProg (Except MemoryError MemoryReply) :=
  match r.started with
  | .error e => pure (.error e)
  | .ok () =>
      match r.delivery with
      | .unsent => pure (.error .sendError)
      | .dropped => pure (.error .recvError)
      | .unanswered => do
          let _ ← r.message.prog mm
          pure (.error .recvError)
      | .answered => do
          let reply ← r.message.prog mm
          pure (.ok reply)

/-- The actors of some requests, none of which has sent a message yet. -/
def MemoryManager.actors {ι : Type} (mm : MemoryManager) (w : World) (requests : ι → Dispatch) :
    Pool ι ActorCall ActorCall.Response (Except MemoryError MemoryReply) World where
  env := w
  prog i := (requests i).prog mm

/-! ## What a user's messages do -/

section

variable {dim : Nat} {username : String}

/-- A raw path of a known user. -/
def IsPathOf (username path : String) : Prop :=
  Http.validateUsername username = .ok () ∧ ∃ agentId project filename,
    getRawPath username agentId project filename = .ok path

/-- A message to the index or storage for a file of this user, with vectors of the dimension. -/
def ActorCall.SentFor (dim : Nat) (username : String) : ActorCall → Prop
  | .embed .. => False
  | .indexInsert _ msg _ _ _ => ∀ c ∈ msg.chunks, c.embedding.len = dim
  | .indexDelete .. => True
  | .indexIsEmpty .. => False
  | .indexSearch .. => False
  | .storageWrite _ path _ _ => IsPathOf username path
  | .storageRead _ path => IsPathOf username path
  | .storageDelete _ path _ => IsPathOf username path

/-- The statement that records the dimension, which only a first insert makes, does not fail. -/
def ActorCall.RecordsDim : ActorCall → Prop
  | .indexInsert _ _ _ _ fault => ∀ message, fault ≠ some (.writeDim message)
  | _ => True

/-- The same for the message of a request. -/
def MemoryMessage.RecordsDim : MemoryMessage → Prop
  | .write _ script => ∀ message, script.indexFault ≠ some (.writeDim message)
  | _ => True

instance (message : MemoryMessage) : Decidable message.RecordsDim :=
  match message with
  | .write _ script =>
      match h : script.indexFault with
      | some (.writeDim text) => isFalse fun hall => hall text h
      | some (.task _) => isTrue (by simp [MemoryMessage.RecordsDim, h])
      | some .selectDim => isTrue (by simp [MemoryMessage.RecordsDim, h])
      | some (.selectDimThen _) => isTrue (by simp [MemoryMessage.RecordsDim, h])
      | some (.createVecTable _) => isTrue (by simp [MemoryMessage.RecordsDim, h])
      | some (.transaction _) => isTrue (by simp [MemoryMessage.RecordsDim, h])
      | none => isTrue (by simp [MemoryMessage.RecordsDim, h])
  | .read _ _ => isTrue trivial
  | .delete _ _ => isTrue trivial
  | .search _ _ => isTrue trivial

/-- With a pinned dimension, every chunk a write sends to the index has it. -/
theorem len_of_buildInsert {op : FileOp} (hdim : op.embeddingDim = some dim)
    {path content : String} {d : Delivery} {response : Except LlmError EmbedResult}
    {insert : IndexInsert} (h : op.buildInsert path content d response = .ok insert) :
    ∀ c ∈ insert.chunks, c.embedding.len = dim := by
  unfold FileOp.buildInsert at h
  simp only at h
  split at h <;> rename_i hembed
  · contradiction
  · rename_i r
    cases h
    have hlen : ∀ e ∈ r.embeddings, e.len = dim := by
      split at hembed
      · cases hembed
        simp
      · rw [hdim] at hembed
        exact len_of_embed (propagate_receive_eq_ok.mp hembed).2
    intro c hc
    rcases List.mem_map.mp hc with ⟨⟨text, e⟩, hmem, rfl⟩
    exact hlen e (List.of_mem_zip hmem).2

/-- What a request does is what its message does, whatever becomes of it on the way. -/
theorem dispatch_meets {mm : MemoryManager} {r : Dispatch} {ok : ∀ c, ActorCall.Response c → Prop}
    {P : ActorCall → Prop} {Q : MemoryReply → Prop} (h : Meets ok P Q (r.message.prog mm)) :
    Meets ok P (fun reply => ∀ a, reply = .ok a → Q a) (r.prog mm) := by
  unfold Dispatch.prog
  cases r.started with
  | error e => exact fun a ha => nomatch ha
  | ok _ =>
      cases r.delivery with
      | unsent => exact fun a ha => nomatch ha
      | dropped => exact fun a ha => nomatch ha
      | unanswered => exact Meets.bind h fun _ _ a ha => nomatch ha
      | answered => exact Meets.bind h fun reply hreply a ha => Except.ok.inj ha ▸ hreply

/-- The messages of a file operation are those of its user. -/
theorem MemoryMessage.Sends.sentFor {mm : MemoryManager} (hdim : mm.embeddingDim = some dim)
    {message : MemoryMessage} (hfile : message.isFileOp = true)
    (huser : Http.validateUsername message.username = .ok ()) {c : ActorCall}
    (h : message.Sends mm c) :
    c.SentFor dim message.username ∧ (message.RecordsDim → c.RecordsDim) := by
  cases message with
  | write msg script =>
      cases h with
      | index hpath hbuild => exact ⟨len_of_buildInsert hdim hbuild, fun hfault => hfault⟩
      | store hpath => exact ⟨⟨huser, _, _, _, hpath⟩, fun _ => trivial⟩
      | undo hpath => exact ⟨trivial, fun _ => trivial⟩
  | read msg storage =>
      cases h with
      | read hpath => exact ⟨⟨huser, _, _, _, hpath⟩, fun _ => trivial⟩
  | delete msg script =>
      cases h with
      | index hpath => exact ⟨trivial, fun _ => trivial⟩
      | store hpath => exact ⟨⟨huser, _, _, _, hpath⟩, fun _ => trivial⟩
  | search msg script => simp [MemoryMessage.isFileOp] at hfile

end

/-! ## Separation -/

/-- Storage holds the same in the region of the user. -/
def World.Alike (username : String) (w w' : World) : Prop :=
  AgreeOn (InRegion username) w.fs w'.fs

/-- In an index of one dimension, an insert is answered by its verdict, if it gets there. -/
theorem sendInsert_verdict {dim : Nat} {w : World} (hw : OfDimension dim w.db)
    (hdim : dim < 2 ^ 64) (d : Delivery) {msg : IndexInsert}
    (hlen : ∀ c ∈ msg.chunks, c.embedding.len = dim) (content : String) (now : Int)
    (fault : Option IndexFault) :
    OfDimension dim (w.sendInsert d msg content now fault).2.db ∧
      ((∀ message, fault ≠ some (.writeDim message)) →
        (w.sendInsert d msg content now fault).1 =
          propagate .indexer (d.receive (insertVerdict msg fault))) := by
  rcases handleInsert_verdict hw hdim hlen now fault with ⟨hafter, hreply⟩
  unfold World.sendInsert
  split <;> rename_i hd
  · rcases hr : handleInsert w.db msg now fault with ⟨result, db⟩
    rw [hr] at hafter hreply
    cases result with
    | ok _ =>
        refine ⟨hafter, fun hfault => ?_⟩
        simp only [← hreply hfault]
    | error e =>
        refine ⟨hafter, fun hfault => ?_⟩
        simp only [← hreply hfault]
  · refine ⟨hw, fun _ => ?_⟩
    cases d with
    | unsent => rfl
    | dropped => rfl
    | unanswered => simp [Delivery.handled] at hd
    | answered => simp [Delivery.handled] at hd

/-- In an index of one dimension, a delete is answered by its verdict, if it gets there. -/
theorem sendDelete_verdict {dim : Nat} {w : World} (hw : OfDimension dim w.db) (d : Delivery)
    (path : String) (fault : Option IndexFault) :
    OfDimension dim (w.sendDelete d path fault).2.db ∧
      (w.sendDelete d path fault).1 =
        propagate .indexer (d.receive (deleteVerdict fault)) := by
  rcases handleDelete_verdict hw path fault with ⟨hafter, hreply⟩
  unfold World.sendDelete
  split <;> rename_i hd
  · rcases hr : handleDelete w.db path fault with ⟨result, db⟩
    rw [hr] at hafter hreply
    cases result with
    | ok _ => exact ⟨hafter, by simp only [← hreply]⟩
    | error e => exact ⟨hafter, by simp only [← hreply]⟩
  · refine ⟨hw, ?_⟩
    cases d with
    | unsent => rfl
    | dropped => rfl
    | unanswered => simp [Delivery.handled] at hd
    | answered => simp [Delivery.handled] at hd

/-- A storage message leaves the index alone. -/
theorem sendStorageWrite_db (w : World) (d : Delivery) (path content : String)
    (fault : Option StorageFault) :
    (w.sendStorageWrite d path content fault).2.db = w.db := by
  unfold World.sendStorageWrite
  split <;> rfl

theorem sendStorageDelete_db (w : World) (d : Delivery) (path : String)
    (fault : Option StorageFault) :
    (w.sendStorageDelete d path fault).2.db = w.db := by
  unfold World.sendStorageDelete
  split <;> rfl

/-- Messages for a user and searches keep the index in one dimension. -/
theorem answer_ofDimension {dim : Nat} (hdim : dim < 2 ^ 64) {c : ActorCall} {w : World}
    (hsent : (∃ other, c.SentFor dim other) ∨ c.LooksUp) (hw : OfDimension dim w.db) :
    OfDimension dim (World.answer c w).2.db := by
  rcases hsent with ⟨other, hsent⟩ | hlook
  · cases c with
    | embed d expectedDim texts response => exact hsent.elim
    | indexInsert d msg content now fault =>
        exact (sendInsert_verdict hw hdim d hsent content now fault).1
    | indexDelete d path fault => exact (sendDelete_verdict hw d path fault).1
    | indexIsEmpty d fault => exact hsent.elim
    | indexSearch d msg knn order fault => exact hsent.elim
    | storageWrite d path content fault =>
        have hdb := sendStorageWrite_db w d path content fault
        exact hdb ▸ hw
    | storageRead d path => exact hw
    | storageDelete d path fault =>
        have hdb := sendStorageDelete_db w d path fault
        exact hdb ▸ hw
  · rw [hlook.unchanged]
    exact hw

/-- Messages for another user and searches change nothing in a user's region. -/
theorem answer_spares {dim : Nat} {username : String} {c : ActorCall} {w w' : World}
    (hother : (∃ other, other ≠ username ∧ c.SentFor dim other) ∨ c.LooksUp)
    (halike : World.Alike username w w') : World.Alike username (World.answer c w).2 w' := by
  rcases hother with ⟨other, hne, hsent⟩ | hlook
  · cases c with
    | embed d expectedDim texts response => exact hsent.elim
    | indexInsert d msg content now fault =>
        intro l hl
        simp only [World.answer, World.sendInsert_fs]
        exact halike l hl
    | indexDelete d path fault =>
        intro l hl
        simp only [World.answer, World.sendDelete_fs]
        exact halike l hl
    | indexIsEmpty d fault => exact hsent.elim
    | indexSearch d msg knn order fault => exact hsent.elim
    | storageWrite d path content fault =>
        rcases hsent with ⟨huser, agentId, project, filename, hpath⟩
        intro l hl
        simp only [World.answer, World.sendStorageWrite]
        split
        · exact (storageWrite_spares huser hpath hne content fault l hl).trans (halike l hl)
        · exact halike l hl
    | storageRead d path => exact halike
    | storageDelete d path fault =>
        rcases hsent with ⟨huser, agentId, project, filename, hpath⟩
        intro l hl
        simp only [World.answer, World.sendStorageDelete]
        split
        · exact (storageDelete_spares huser hpath hne fault l hl).trans (halike l hl)
        · exact halike l hl
  · rw [hlook.unchanged]
    exact halike

/-- A message for a user is answered by what is in the user's region, and does the same there. -/
theorem answer_same {dim : Nat} (hdim : dim < 2 ^ 64) {username : String} {c : ActorCall}
    {w w' : World} (hsent : c.SentFor dim username) (hrecords : c.RecordsDim)
    (hw : OfDimension dim w.db) (hw' : OfDimension dim w'.db)
    (halike : World.Alike username w w') :
    (World.answer c w).1 = (World.answer c w').1 ∧
      World.Alike username (World.answer c w).2 (World.answer c w').2 := by
  cases c with
  | embed d expectedDim texts response => exact hsent.elim
  | indexInsert d msg content now fault =>
      have hreply := (sendInsert_verdict hw hdim d hsent content now fault).2 hrecords
      have hreply' := (sendInsert_verdict hw' hdim d hsent content now fault).2 hrecords
      refine ⟨hreply.trans hreply'.symm, ?_⟩
      intro l hl
      simp only [World.answer, World.sendInsert_fs]
      exact halike l hl
  | indexDelete d path fault =>
      have hreply := (sendDelete_verdict hw d path fault).2
      have hreply' := (sendDelete_verdict hw' d path fault).2
      refine ⟨hreply.trans hreply'.symm, ?_⟩
      intro l hl
      simp only [World.answer, World.sendDelete_fs]
      exact halike l hl
  | indexIsEmpty d fault => exact hsent.elim
  | indexSearch d msg knn order fault => exact hsent.elim
  | storageWrite d path content fault =>
      rcases hsent with ⟨huser, agentId, project, filename, hpath⟩
      have hstep := storageWrite_agree halike (keepsTo_rawPath huser hpath) content fault
      simp only [World.answer, World.sendStorageWrite]
      split
      · exact ⟨by rw [hstep.1], hstep.2⟩
      · exact ⟨rfl, halike⟩
  | storageRead d path =>
      rcases hsent with ⟨huser, agentId, project, filename, hpath⟩
      have hread := storageRead_agree halike (keepsTo_rawPath huser hpath)
      refine ⟨?_, halike⟩
      simp only [World.answer]
      rw [hread]
  | storageDelete d path fault =>
      rcases hsent with ⟨huser, agentId, project, filename, hpath⟩
      have hstep := storageDelete_agree halike (keepsTo_rawPath huser hpath) fault
      simp only [World.answer, World.sendStorageDelete]
      split
      · exact ⟨by rw [hstep.1], hstep.2⟩
      · exact ⟨rfl, halike⟩

/-- Messages for other users and searches are out of a user's sight: they change nothing in the
user's region, and the user's own messages are answered by what is there. -/
theorem separated {dim : Nat} (hdim : dim < 2 ^ 64) (username : String) :
    Pool.Separated World.answer
      (fun c => c.SentFor dim username ∧ c.RecordsDim)
      (fun c => (∃ other, other ≠ username ∧ c.SentFor dim other) ∨ c.LooksUp)
      (fun w => OfDimension dim w.db) (World.Alike username) where
  keeps := by
    rintro c w (⟨hsent, -⟩ | ⟨other, -, hsent⟩ | hlook) hw
    · exact answer_ofDimension hdim (Or.inl ⟨_, hsent⟩) hw
    · exact answer_ofDimension hdim (Or.inl ⟨_, hsent⟩) hw
    · exact answer_ofDimension hdim (Or.inr hlook) hw
  spares := fun _ _ _ hother _ halike => answer_spares hother halike
  same := fun _ _ _ hown hw hw' halike => answer_same hdim hown.1 hown.2 hw hw' halike

/-! ## Requests side by side -/

/-- In every interleaving of requests, the file operations of a user come as far, and are answered,
as if nothing else had been asked for, and leave the user the same files. -/
theorem users_isolated {ι : Type} [DecidableEq ι] {mm : MemoryManager} {dim : Nat}
    (hpinned : mm.embeddingDim = some dim) (hdim : dim < 2 ^ 64) {requests : ι → Dispatch}
    (hvalid : ∀ i, Http.validateUsername (requests i).message.username = .ok ())
    {username : String}
    (hrecords : ∀ i, (requests i).message.username = username → (requests i).message.RecordsDim)
    {w w' : World} (hw : OfDimension dim w.db) (hw' : OfDimension dim w'.db)
    (halike : w.Alike username w') {turns : List ι}
    {p : Pool ι ActorCall ActorCall.Response (Except MemoryError MemoryReply) World}
    (hrun : run (Pool.step World.answer) (mm.actors w requests) turns = some p) :
    ∃ q, run (Pool.step World.answer) (mm.actors w' requests)
        (turns.filter fun i => (requests i).IsFileOpOf username) = some q ∧
      (∀ i, (requests i).IsFileOpOf username → p.result i = q.result i) ∧
      ∀ msg : FileOpRead, Http.validateUsername username = .ok () → msg.username = username →
        FileOp.read p.env msg = FileOp.read q.env msg := by
  have hprog : ∀ i, Meets (fun _ _ => True)
      (fun c => if (requests i).IsFileOpOf username then
        c.SentFor dim username ∧ c.RecordsDim
      else (∃ other, other ≠ username ∧ c.SentFor dim other) ∨ c.LooksUp)
      (fun _ => True) ((mm.actors w requests).prog i) := by
    intro i
    refine (dispatch_meets ((requests i).message.prog_sends mm)).mono (fun _ _ h => h) ?_
      fun _ _ => trivial
    intro c hc
    by_cases hfile : (requests i).message.isFileOp = true
    · rcases hc.sentFor hpinned hfile (hvalid i) with ⟨hsent, hrecord⟩
      by_cases hi : (requests i).message.username = username
      · rw [if_pos ⟨hfile, hi⟩]
        exact ⟨hi ▸ hsent, hrecord (hrecords i hi)⟩
      · rw [if_neg fun h => hi h.2]
        exact Or.inl ⟨_, hi, hsent⟩
    · rw [if_neg fun h => hfile h.1]
      cases hmsg : (requests i).message with
      | search msg script =>
          rw [hmsg] at hc
          exact Or.inr hc
      | write msg script => simp [hmsg, MemoryMessage.isFileOp] at hfile
      | read msg storage => simp [hmsg, MemoryMessage.isFileOp] at hfile
      | delete msg script => simp [hmsg, MemoryMessage.isFileOp] at hfile
  rcases Pool.run_purged (separated hdim username)
    (fun i => decide ((requests i).IsFileOpOf username))
    (p := mm.actors w requests) (q := mm.actors w' requests)
    (fun i => by simpa only [decide_eq_true_eq] using hprog i) hw hw' halike
    (fun _ _ => rfl) hrun with ⟨q, hq, hafter, hsame⟩
  refine ⟨q, hq, ?_, ?_⟩
  · intro i hi
    unfold Pool.result
    rw [hsame i (decide_eq_true hi)]
  · rintro msg huser rfl
    unfold FileOp.read
    cases hpath : getRawPath msg.username msg.agentId msg.project msg.filename with
    | error e => rfl
    | ok path =>
        simp only
        rw [storageRead_agree hafter (keepsTo_rawPath huser hpath)]

/-- Alice writes and reads a file while bob writes one. -/
def sampleRequests : Fin 3 → Dispatch
  | 0 => ⟨.ok (), .answered, .write ⟨"alice", .nil, none, "a.md", "x"⟩ .sample⟩
  | 1 => ⟨.ok (), .answered, .write ⟨"bob", .nil, none, "a.md", "y"⟩ .sample⟩
  | 2 => ⟨.ok (), .answered, .read ⟨"alice", .nil, none, "a.md"⟩ .answered⟩

theorem users_isolated_sample :
    ∃ p q, run (Pool.step World.answer)
        ((⟨400, 80, some 1⟩ : MemoryManager).actors .fresh sampleRequests) [1, 0, 1, 0, 2] =
          some p ∧
      run (Pool.step World.answer)
        ((⟨400, 80, some 1⟩ : MemoryManager).actors .fresh sampleRequests) [0, 0, 2] = some q ∧
      p.result 2 = q.result 2 := by
  have hruns : (run (Pool.step World.answer)
      ((⟨400, 80, some 1⟩ : MemoryManager).actors .fresh sampleRequests)
        [1, 0, 1, 0, 2]).isSome := by
    decide +kernel
  rcases Option.isSome_iff_exists.mp hruns with ⟨p, hp⟩
  rcases @users_isolated (Fin 3) _ _ 1 rfl (by decide) _ (by decide) "alice"
    (by decide) _ _ (ofDimension_fresh 1) (ofDimension_fresh 1) (fun _ _ => rfl) _ _ hp with
    ⟨q, hq, hsame, -⟩
  exact ⟨p, q, hp, hq, hsame 2 (by decide)⟩

/-- In every interleaving of requests, the results of a search are what its vectors find in the
index as it is at one of the turns of the search; a blank query finds nothing, and nor does one
without vectors. -/
theorem searches_find {ι : Type} [DecidableEq ι] {mm : MemoryManager} {requests : ι → Dispatch}
    {w : World} {turns : List ι}
    {p : Pool ι ActorCall ActorCall.Response (Except MemoryError MemoryReply) World}
    (hrun : run (Pool.step World.answer) (mm.actors w requests) turns = some p) {i : ι}
    {msg : Search} {script : SearchScript} (hmsg : (requests i).message = .search msg script)
    {results : List (SearchResult Float32)}
    (hreply : p.result i = some (.ok (.found (.ok results)))) :
    (RustStr.trim msg.query = "" ∧ results = []) ∨
      ∃ before rest q, turns = before ++ i :: rest ∧
        run (Pool.step World.answer) (mm.actors w requests) before = some q ∧
          (∀ r, embed (mm.searchOp.texts msg.query) mm.embeddingDim script.response = .ok r →
            results = script.found q.env.db (msg.indexSearch r.embeddings)) ∧
          (∀ e, embed (mm.searchOp.texts msg.query) mm.embeddingDim script.response = .error e →
            results = []) := by
  let seen : World → Prop := fun v => ∃ before rest q, turns = before ++ i :: rest ∧
    run (Pool.step World.answer) (mm.actors w requests) before = some q ∧ q.env = v
  have hsearch := mm.searchOp.prog_meets msg script seen
  have hmessage : Meets (fun c r => ∃ v, seen v ∧ r = (World.answer c v).1) ActorCall.LooksUp
      (fun reply => ∀ found, reply = .found (.ok found) →
        (RustStr.trim msg.query = "" ∧ found = []) ∨ ∃ v, seen v ∧
          (∀ r, embed (mm.searchOp.texts msg.query) mm.embeddingDim script.response = .ok r →
            found = script.found v.db (msg.indexSearch r.embeddings)) ∧
          (∀ e, embed (mm.searchOp.texts msg.query) mm.embeddingDim script.response = .error e →
            found = []))
      ((requests i).message.prog mm) := by
    rw [hmsg]
    refine Meets.bind hsearch ?_
    intro reply hfound found h
    exact hfound found (MemoryReply.found.inj h)
  have hturns : ∀ before rest q, turns = before ++ i :: rest →
      run (Pool.step World.answer) (mm.actors w requests) before = some q → seen q.env := by
    intro before rest q hsplit hq
    exact ⟨before, rest, q, hsplit, hq, rfl⟩
  have hend := Pool.run_seen hturns (dispatch_meets hmessage) hrun
  rcases Pool.result_meets hend hreply _ rfl results rfl with hblank | ⟨v, hv, hfound⟩
  · exact Or.inl hblank
  · rcases hv with ⟨before, rest, q, hsplit, hq, rfl⟩
    exact Or.inr ⟨before, rest, q, hsplit, hq, hfound⟩

/-- The answers to a search for a note of one chunk. -/
def SearchScript.sample : SearchScript :=
  .answered (.ok ⟨"m", [⟨[0x3f800000], Embedding.one_length_lt⟩]⟩)
    (Knn.only (chunkId (rawPath "alice" .nil "_default" "a.md") 0) 0)

/-- Alice writes a note and searches for it. -/
def sampleSearch : Fin 2 → Dispatch
  | 0 => ⟨.ok (), .answered, .write ⟨"alice", .nil, none, "a.md", "x"⟩ .sample⟩
  | 1 => ⟨.ok (), .answered, .search ⟨"alice", .nil, "x", .user, false⟩ .sample⟩

/-- The search runs between the two steps of the write. -/
theorem searches_find_sample :
    ∃ before rest q, [0, 1, 1, 1, 0] = before ++ 1 :: rest ∧
      run (Pool.step World.answer)
        ((⟨400, 80, none⟩ : MemoryManager).actors .fresh sampleSearch) before = some q ∧
      [⟨rawPath "alice" .nil "_default" "a.md", 1, 1, 1, "x"⟩] =
        SearchScript.sample.found q.env.db
          ⟨[⟨[0x3f800000], Embedding.one_length_lt⟩], "alice", .nil, .user, false, 20⟩ := by
  have hend : (run (Pool.step World.answer)
      ((⟨400, 80, none⟩ : MemoryManager).actors .fresh sampleSearch) [0, 1, 1, 1, 0]).bind
        (fun p => p.result 1) = some (.ok (.found (.ok
          [⟨rawPath "alice" .nil "_default" "a.md", 1, 1, 1, "x"⟩]))) := by
    decide +kernel
  rcases Option.bind_eq_some_iff.mp hend with ⟨p, hp, hreply⟩
  rcases searches_find hp rfl hreply with ⟨-, hnone⟩ | ⟨before, rest, q, hturns, hq, hfound, -⟩
  · contradiction
  · have hembed : embed ["x"] none
        (.ok ⟨"m", [⟨[0x3f800000], Embedding.one_length_lt⟩]⟩) =
          .ok ⟨"m", [⟨[0x3f800000], Embedding.one_length_lt⟩]⟩ := by decide
    exact ⟨before, rest, q, hturns, hq, hfound _ hembed⟩

end Memory
end MemoryHub
