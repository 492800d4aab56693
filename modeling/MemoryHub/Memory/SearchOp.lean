import MemoryHub.Memory.ActorCalls

/-!
# Search operations

Chunks the query, embeds it, and searches the index.  Embedding is a remote call, so a
blank query is not embedded, nor is any query when the index says it is empty.  Other
actors may change the index between that and the search.

Main results:

- Theorem `embeds_iff`: when exactly a search asks the embedder.
- Theorem `prog_meets`: the results are what a search finds in the index at one of the moments
  the operation looks at it.
-/

namespace MemoryHub
namespace Memory

open Collections Llm
open Prog (exec trace trace_bind exec_bind perform Meets)

/-! ## The operation -/

/-- `Search`. -/
structure Search where
  username : String
  agentId : Uuid
  query : String
  scope : SearchScope
  rawOnly : Bool
deriving DecidableEq, Repr

/-- The message to the index. -/
def Search.indexSearch (msg : Search) (embeddings : List Embedding) : IndexSearch where
  embeddings := embeddings
  username := msg.username
  agentId := msg.agentId
  scope := msg.scope
  rawOnly := msg.rawOnly
  limit := 20

/-- The actor's own fields, and the dimension the embedder is pinned to. -/
structure SearchOp where
  chunkSize : Nat
  chunkOverlap : Nat
  embeddingDim : Option Nat
deriving DecidableEq, Repr

/-- What happens to the messages of a search. -/
structure SearchScript where
  isEmpty : Delivery
  isEmptyFault : Option IndexError
  embed : Delivery
  response : Except LlmError EmbedResult
  search : Delivery
  searchFault : Option SearchFault
  knn : Knn Float32
  order : IterationOrder (Σ _ : String, SearchResult Float32)

/-- Every message is answered, and nothing fails. -/
def SearchScript.answered (response : Except LlmError EmbedResult) (knn : Knn Float32) :
    SearchScript where
  isEmpty := .answered
  isEmptyFault := none
  embed := .answered
  response := response
  search := .answered
  searchFault := none
  knn := knn
  order := .stored _

namespace SearchOp

def sendIsEmpty (d : Delivery) (fault : Option IndexError) :
    ActorProg (Except MemoryError Bool) :=
  perform (ActorCall.indexIsEmpty d fault)

def sendEmbed (d : Delivery) (expectedDim : Option Nat) (texts : List String)
    (response : Except LlmError EmbedResult) : ActorProg (Except MemoryError EmbedResult) :=
  perform (ActorCall.embed d expectedDim texts response)

def sendSearch (d : Delivery) (msg : IndexSearch) (knn : Knn Float32)
    (order : IterationOrder (Σ _ : String, SearchResult Float32)) (fault : Option SearchFault) :
    ActorProg (Except MemoryError (List (SearchResult Float32))) :=
  perform (ActorCall.indexSearch d msg knn order fault)

/-- The texts of a query that are embedded. -/
def texts (op : SearchOp) (query : String) : List String :=
  (chunkText query op.chunkSize op.chunkOverlap).map TextChunk.text

/-- `Handler<Search>`. -/
def prog (op : SearchOp) (msg : Search) (s : SearchScript) :
    ActorProg (Except MemoryError (List (SearchResult Float32))) :=
  if RustStr.trim msg.query = "" then pure (.ok [])
  else do
    match ← sendIsEmpty s.isEmpty s.isEmptyFault with
    | .error e => pure (.error e)
    | .ok true => pure (.ok [])
    | .ok false =>
        if (op.texts msg.query).isEmpty then pure (.ok [])
        else do
          match ← sendEmbed s.embed op.embeddingDim (op.texts msg.query) s.response with
          | .error e => pure (.error e)
          | .ok r => sendSearch s.search (msg.indexSearch r.embeddings) s.knn s.order s.searchFault

/-- A query has no texts exactly if it is blank. -/
theorem texts_eq_nil_iff (op : SearchOp) (query : String) :
    op.texts query = [] ↔ RustStr.trim query = "" := by
  rw [texts, List.map_eq_nil_iff, chunkText_eq_nil_iff]

end SearchOp

/-! ## The message to the embedder -/

/-- An `Embed` message to the embedder. -/
def ActorCall.IsEmbed : ActorCall → Prop
  | .embed .. => True
  | _ => False

namespace SearchOp

variable {op : SearchOp} {msg : Search} {s : SearchScript}

/-- A search with nothing beside it sends `Embed` exactly if its query is not blank and the index
says that it is not empty; in particular the third check never ends it. -/
theorem embeds_iff (w : World) :
    (∃ e ∈ trace World.answer (op.prog msg s) w, e.1.IsEmbed) ↔
      RustStr.trim msg.query ≠ "" ∧ s.isEmpty = .answered ∧ s.isEmptyFault = none ∧
        w.db.chunks.rows ≠ [] := by
  unfold prog
  split <;> rename_i hblank
  · refine iff_of_false ?_ fun h => h.1 hblank
    rintro ⟨e, he, -⟩
    exact List.not_mem_nil he
  · have htexts : op.texts msg.query ≠ [] := by
      rwa [Ne, texts_eq_nil_iff]
    rw [if_neg (by simpa using htexts)]
    simp only [trace_bind, List.mem_append, or_and_right, exists_or]
    have hfirst : ¬ ∃ e ∈ trace World.answer (sendIsEmpty s.isEmpty s.isEmptyFault) w,
        e.1.IsEmbed := by
      rintro ⟨e, he, hembed⟩
      rw [List.mem_singleton.mp he] at hembed
      exact hembed
    have hreply : exec World.answer (sendIsEmpty s.isEmpty s.isEmptyFault) w =
        (propagate .indexer (s.isEmpty.receive (handleIsEmpty w.db s.isEmptyFault)), w) := rfl
    have hempty : propagate .indexer (s.isEmpty.receive (handleIsEmpty w.db s.isEmptyFault)) =
        .ok false ↔ s.isEmpty = .answered ∧ s.isEmptyFault = none ∧ w.db.chunks.rows ≠ [] := by
      rw [propagate_receive_eq_ok]
      unfold handleIsEmpty
      cases s.isEmptyFault <;> simp
    rw [or_iff_right hfirst, hreply, ← hempty, and_iff_right hblank]
    cases propagate .indexer (s.isEmpty.receive (handleIsEmpty w.db s.isEmptyFault)) with
    | error e =>
        refine iff_of_false ?_ (by simp)
        rintro ⟨e', he', -⟩
        exact List.not_mem_nil he'
    | ok empty =>
        cases empty with
        | true =>
            refine iff_of_false ?_ (by simp)
            rintro ⟨e', he', -⟩
            exact List.not_mem_nil he'
        | false => exact iff_of_true ⟨_, List.mem_cons_self, trivial⟩ rfl

end SearchOp

/-! ## What is found -/

/-- What a search of the index finds: nothing, if it fails or does not see the vector table. -/
def SearchScript.found (s : SearchScript) (db : IndexDb) (msg : IndexSearch) :
    List (SearchResult Float32) :=
  match handleSearch db s.knn s.order msg s.searchFault with
  | .ok results => results
  | .error _ => []

/-- Nothing is found where there are no chunks. -/
theorem found_of_no_chunks (s : SearchScript) {db : IndexDb} (h : db.chunks.rows = [])
    (msg : IndexSearch) : s.found db msg = [] := by
  unfold SearchScript.found
  cases hreply : handleSearch db s.knn s.order msg s.searchFault with
  | error e => rfl
  | ok results =>
      unfold handleSearch at hreply
      cases hfault : s.searchFault with
      | none =>
          rw [hfault] at hreply
          rw [List.eq_nil_iff_forall_not_mem]
          intro r hr
          rcases mem_doSearch hreply hr with ⟨c, ⟨hc, -⟩, -⟩
          rw [h] at hc
          exact List.not_mem_nil hc
      | some fault =>
          rw [hfault] at hreply
          cases fault with
          | failed e => contradiction
          | tableUnseen => exact (Except.ok.inj hreply).symm

/-- The message changes nothing. -/
def ActorCall.LooksUp : ActorCall → Prop
  | .embed .. | .indexIsEmpty .. | .indexSearch .. | .storageRead .. => True
  | _ => False

theorem ActorCall.LooksUp.unchanged {c : ActorCall} (h : c.LooksUp) (w : World) :
    (World.answer c w).2 = w := by
  cases c with
  | embed d expectedDim texts response => rfl
  | indexIsEmpty d fault => rfl
  | indexSearch d msg knn order fault => rfl
  | storageRead d path => rfl
  | indexInsert d msg content now fault => exact h.elim
  | indexDelete d path fault => exact h.elim
  | storageWrite d path content fault => exact h.elim
  | storageDelete d path fault => exact h.elim

namespace SearchOp

/-- A search changes nothing. -/
theorem prog_looksUp (op : SearchOp) (msg : Search) (s : SearchScript) :
    Meets (fun _ _ => True) ActorCall.LooksUp (fun _ => True) (op.prog msg s) := by
  unfold prog
  split
  · exact trivial
  · refine ⟨trivial, ?_⟩
    intro r _
    cases r with
    | error e => exact trivial
    | ok empty =>
        cases empty with
        | true => exact trivial
        | false =>
            by_cases htexts : (op.texts msg.query).isEmpty = true
            · rw [if_pos htexts]
              exact trivial
            · rw [if_neg htexts]
              refine ⟨trivial, ?_⟩
              intro r₂ _
              cases r₂ with
              | error e => exact trivial
              | ok embedded => exact ⟨trivial, fun _ _ => trivial⟩

/-- Where the messages are answered in some states of the world, the results for a query that is
not blank are what a search with its vectors finds in one of them, or nothing if there are no
vectors. -/
theorem prog_meets (op : SearchOp) (msg : Search) (s : SearchScript) (seen : World → Prop) :
    Meets (fun c r => ∃ w, seen w ∧ r = (World.answer c w).1) ActorCall.LooksUp
      (fun reply => ∀ results, reply = .ok results →
        (RustStr.trim msg.query = "" ∧ results = []) ∨ ∃ w, seen w ∧
          (∀ r, embed (op.texts msg.query) op.embeddingDim s.response = .ok r →
            results = s.found w.db (msg.indexSearch r.embeddings)) ∧
          (∀ e, embed (op.texts msg.query) op.embeddingDim s.response = .error e →
            results = [])) (op.prog msg s) := by
  unfold prog
  split <;> rename_i hblank
  · rintro results ⟨⟩
    exact Or.inl ⟨hblank, rfl⟩
  · have htexts : op.texts msg.query ≠ [] := by
      rwa [Ne, texts_eq_nil_iff]
    refine ⟨trivial, ?_⟩
    rintro r ⟨w, hw, rfl⟩
    cases hempty : (World.answer (.indexIsEmpty s.isEmpty s.isEmptyFault) w).1 with
    | error e => exact fun results h => nomatch h
    | ok empty =>
        have hrows : w.db.chunks.rows.isEmpty = empty := by
          have hreply := (propagate_receive_eq_ok.mp hempty).2
          unfold handleIsEmpty at hreply
          split at hreply
          · contradiction
          · exact Except.ok.inj hreply
        cases empty with
        | true =>
            rintro results ⟨⟩
            refine Or.inr ⟨w, hw, ?_, fun _ _ => rfl⟩
            intro r _
            exact (found_of_no_chunks s (List.isEmpty_iff.mp hrows) _).symm
        | false =>
            rw [if_neg (by simpa using htexts)]
            refine ⟨trivial, ?_⟩
            rintro r' ⟨w', -, rfl⟩
            cases hembed : (World.answer
                (.embed s.embed op.embeddingDim (op.texts msg.query) s.response) w').1 with
            | error e => exact fun results h => nomatch h
            | ok r =>
                refine ⟨trivial, ?_⟩
                rintro reply ⟨w'', hw'', rfl⟩ results hresults
                have haccepted := (propagate_receive_eq_ok.mp hembed).2
                refine Or.inr ⟨w'', hw'', ?_, fun e he => by rw [he] at haccepted; cases haccepted⟩
                intro r' hr'
                rw [hr', Except.ok.injEq] at haccepted
                have hsearch := (propagate_receive_eq_ok.mp hresults).2
                rw [SearchScript.found, haccepted, hsearch]

end SearchOp

end Memory
end MemoryHub
