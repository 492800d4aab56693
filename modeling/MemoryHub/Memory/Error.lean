import MemoryHub.Lib.FileSystem
import MemoryHub.Lib.Sqlite

/-!
# Errors of the memory sub-system
-/

namespace MemoryHub

/-- Errors from LLM operations, as far as a request meets them. -/
inductive LlmError where
  | provider (message : String)
  | loadTemplate (source : FileSystem.IoError)
  | transient (message : String)
  | sendError
  | recvError
deriving DecidableEq, Repr

/-- `Display` of the error. -/
def LlmError.display : LlmError → String
  | .provider message => "LLM provider error: " ++ message
  | .loadTemplate _ => "could not load prompt template"
  | .transient message => "transient LLM error: " ++ message
  | .sendError => "could not send message"
  | .recvError => "could not receive message"

namespace Memory

/-- Errors from filesystem storage operations: the call on `path` failed. -/
structure StorageError where
  path : List String
  source : FileSystem.IoError
deriving DecidableEq, Repr

/-- `Display` of the error. -/
def StorageError.display (e : StorageError) : String :=
  "storage I/O error at " ++ String.intercalate "/" e.path

/-- Errors from index operations. -/
inductive IndexError where
  | sqlite (source : Sqlite.Error)
  | taskJoin (message : String)
  | dimensionMismatch (stored received : Nat)
deriving DecidableEq, Repr

/-- `Display` of the error. -/
def IndexError.display : IndexError → String
  | .sqlite source => source.display
  | .taskJoin message => message
  | .dimensionMismatch stored received =>
      "embedding dimension mismatch: stored=" ++ Nat.repr stored ++ ", received=" ++
        Nat.repr received

/-- Top-level error for memory operations. -/
inductive MemoryError where
  | storage (source : StorageError)
  | indexer (source : IndexError)
  | llm (source : LlmError)
  | invalidProject (message : String)
  | sendError
  | recvError
deriving DecidableEq, Repr

/-- `Display` of the error. -/
def MemoryError.display : MemoryError → String
  | .storage source => source.display
  | .indexer source => source.display
  | .llm source => source.display
  | .invalidProject message => "invalid project: " ++ message
  | .sendError => "could not send message"
  | .recvError => "could not receive message"

end Memory
end MemoryHub
