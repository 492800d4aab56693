import MemoryHub.Lib.Uuid
import Mathlib.Algebra.Order.Ring.Int

/-!
# Messages

The messages of the memory sub-system's actors, and the values they carry.
-/

namespace MemoryHub
namespace Memory

/-! ## Shared values -/

/-- An embedding vector: the bit patterns of its `f32` components, in a `Vec` whose
length is a `usize`. -/
structure Embedding where
  values : List UInt32
  length_lt : values.length < 2 ^ 64
deriving DecidableEq, Repr

/-- One component is not too many. -/
theorem Embedding.one_length_lt : [(0x3f800000 : UInt32)].length < 2 ^ 64 := by
  decide

/-- The number of components. -/
def Embedding.len (e : Embedding) : Nat :=
  e.values.length

/-- A chunk of text extracted from a memory file, with its embedding vector.  The
lines are counted from 1. -/
structure Chunk where
  text : String
  startLine : UInt32
  endLine : UInt32
  embedding : Embedding
deriving DecidableEq, Repr

/-- Identity scope for a search request. -/
inductive SearchScope where
  | all
  | user
  | agent
deriving DecidableEq, Repr

/-- A single search result; the score is a similarity in `[0, 1]`, of some type of numbers. -/
structure SearchResult (δ : Type) where
  path : String
  startLine : UInt32
  endLine : UInt32
  score : δ
  snippet : String
deriving DecidableEq, Repr

/-- One source document fed into a synthesis, under a label. -/
structure SourceDoc where
  name : String
  content : String
deriving DecidableEq, Repr

/-! ## Indexer messages -/

/-- Insert or replace a file's chunks in the index; the source is `raw` or
`synthesized`. -/
structure IndexInsert where
  path : String
  source : String
  size : UInt64
  model : String
  chunks : List Chunk
deriving DecidableEq, Repr

/-- Query the index using embedding vectors. -/
structure IndexSearch where
  embeddings : List Embedding
  username : String
  agentId : Uuid
  scope : SearchScope
  rawOnly : Bool
  limit : Nat
deriving DecidableEq, Repr

/-! ## FileOp messages -/

/-- Write a memory file (store, chunk, embed and index). -/
structure FileOpWrite where
  username : String
  agentId : Uuid
  project : Option String
  filename : String
  content : String
deriving DecidableEq, Repr

/-- Read a memory file's content. -/
structure FileOpRead where
  username : String
  agentId : Uuid
  project : Option String
  filename : String
deriving DecidableEq, Repr

/-- Delete a memory file (index and store). -/
structure FileOpDelete where
  username : String
  agentId : Uuid
  project : Option String
  filename : String
deriving DecidableEq, Repr

/-! ## Synthesizer messages -/

/-- Fire-and-forget notification that a memory file was written or deleted. -/
structure FileChanged where
  username : String
  agentId : Uuid
  path : String
deriving DecidableEq, Repr

end Memory
end MemoryHub
