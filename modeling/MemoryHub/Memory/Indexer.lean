import MemoryHub.Lib.Decimal
import MemoryHub.Memory.Error
import MemoryHub.Memory.Message

/-!
# The index

The index is a SQLite database: `files` and `chunks`, a full-text table that
triggers keep beside `chunks`, a vector table created at the first insert, and
`meta` with the vector dimension.  Statements are functions on `IndexDb`; a
transaction is a chain of them whose result is used only if all succeed, which is
what a rollback comes to.

The clock and the statements that fail are arguments of the handlers.  The `SELECT` of the
recorded dimension can fail without a trace: the handlers take that for a missing row.

Main results:

- Definition `readDim`: the recorded dimension as the handlers see it.
- Definition `handleInsert`, `handleDelete`: the handlers, with their transactions.
- Definition `reopen`: what opening the file again makes of the database.
-/

namespace MemoryHub
namespace Memory

/-! ## Tables -/

/-- A row of `files`. -/
structure FileRow where
  path : String
  source : String
  size : Int
  updatedAt : Int
deriving DecidableEq, Repr

/-- A row of `chunks`, with the rowid SQLite gives it. -/
structure ChunkRow where
  rowid : Nat
  id : String
  path : String
  startLine : UInt32
  endLine : UInt32
  model : String
  text : String
  updatedAt : Int
deriving DecidableEq, Repr

/-- A row of `chunks_fts`. -/
structure FtsRow where
  rowid : Nat
  text : String
  id : String
  path : String
  model : String
  startLine : UInt32
  endLine : UInt32
deriving DecidableEq, Repr

/-- A row of `chunks_vec`: the vector is a blob. -/
structure VecRow where
  chunkId : String
  embedding : List UInt8
deriving DecidableEq, Repr

/-- A row of `meta`. -/
structure MetaRow where
  key : String
  value : String
deriving DecidableEq, Repr

/-- The `vec0` table, declared with the dimension of its vectors. -/
structure VecTable where
  dim : Nat
  table : Sqlite.Keyed VecRow.chunkId

/-- The index database. -/
structure IndexDb where
  files : Sqlite.Keyed FileRow.path
  chunks : Sqlite.Keyed ChunkRow.id
  chunksFts : List FtsRow
  chunksVec : Option VecTable
  metaTable : Sqlite.Keyed MetaRow.key

/-! ## Statements -/

/-- What the triggers copy into `chunks_fts`. -/
def ChunkRow.fts (row : ChunkRow) : FtsRow :=
  ⟨row.rowid, row.text, row.id, row.path, row.model, row.startLine, row.endLine⟩

/-- The next rowid: one more than the greatest in use. -/
def nextRowid (rows : List ChunkRow) : Nat :=
  rows.foldr (fun row n => max row.rowid n) 0 + 1

/-- `f32::to_le_bytes` on a bit pattern. -/
def toLeBytes (bits : UInt32) : List UInt8 :=
  [bits.toUInt8, (bits >>> 8).toUInt8, (bits >>> 16).toUInt8, (bits >>> 24).toUInt8]

/-- A float slice as a little-endian byte blob for sqlite-vec. -/
def vecToBlob (v : List UInt32) : List UInt8 :=
  v.flatMap toLeBytes

/-- `format!("\x7b\x7d#\x7b\x7d", path, i)`. -/
def chunkId (path : String) (i : Nat) : String :=
  path ++ String.singleton '#' ++ Nat.repr i

/-- `size as i64`. -/
def asI64 (size : UInt64) : Int :=
  if size.toNat < 2 ^ 63 then size.toNat else (size.toNat : Int) - 2 ^ 64

namespace IndexDb

/-- The database right after `init_schema` on a new file. -/
def fresh : IndexDb where
  files := .empty
  chunks := .empty
  chunksFts := []
  chunksVec := none
  metaTable := .empty

/-- `SELECT id FROM chunks WHERE path = ?1`. -/
def chunkIds (db : IndexDb) (path : String) : List String :=
  (db.chunks.rows.filter fun r => r.path = path).map ChunkRow.id

/-- The rows of `chunks_vec`; none without the table. -/
def vecRows (db : IndexDb) : List VecRow :=
  match db.chunksVec with
  | some vec => vec.table.rows
  | none => []

/-- `SELECT value FROM meta WHERE key = 'embedding_dim'`. -/
def storedDim (db : IndexDb) : Option String :=
  (db.metaTable.rows.find? fun r => r.key = "embedding_dim").map MetaRow.value

/-- `DELETE FROM chunks_vec WHERE chunk_id = ?1`. -/
def deleteVec (db : IndexDb) (chunkId : String) : Except Sqlite.Error IndexDb :=
  match db.chunksVec with
  | none => .error (.noSuchTable "chunks_vec")
  | some vec =>
      .ok { db with
        chunksVec := some { vec with table := vec.table.delete fun r => r.chunkId = chunkId } }

/-- `DELETE FROM chunks WHERE path = ?1`; the trigger `chunks_ad` takes each deleted
row out of `chunks_fts`. -/
def deleteChunks (db : IndexDb) (path : String) : IndexDb :=
  { db with
    chunks := db.chunks.delete fun r => r.path = path
    chunksFts := (db.chunks.rows.filter fun r => r.path = path).foldl
      (fun fts r => fts.erase r.fts) db.chunksFts }

/-- `DELETE FROM files WHERE path = ?1`. -/
def deleteFile (db : IndexDb) (path : String) : IndexDb :=
  { db with files := db.files.delete fun r => r.path = path }

/-- `INSERT INTO files`. -/
def insertFile (db : IndexDb) (row : FileRow) : Except Sqlite.Error IndexDb :=
  match db.files.insert row with
  | .ok files => .ok { db with files := files }
  | .error e => .error e

/-- `INSERT INTO chunks`; the trigger `chunks_ai` copies the row into `chunks_fts`. -/
def insertChunk (db : IndexDb) (row : ChunkRow) : Except Sqlite.Error IndexDb :=
  match db.chunks.insert row with
  | .ok chunks => .ok { db with chunks := chunks, chunksFts := db.chunksFts ++ [row.fts] }
  | .error e => .error e

/-- `INSERT INTO chunks_vec`: `vec0` rejects vectors of another dimension. -/
def insertVec (db : IndexDb) (row : VecRow) : Except Sqlite.Error IndexDb :=
  match db.chunksVec with
  | none => .error (.noSuchTable "chunks_vec")
  | some vec =>
      if row.embedding.length ≠ 4 * vec.dim then
        .error (.failure "Dimension mismatch for inserted vector for the \"embedding\" column.")
      else
        match vec.table.insert row with
        | .ok table => .ok { db with chunksVec := some { vec with table := table } }
        | .error e => .error e

/-- `CREATE VIRTUAL TABLE IF NOT EXISTS chunks_vec`. -/
def createVecTable (db : IndexDb) (dim : Nat) : IndexDb :=
  match db.chunksVec with
  | some _ => db
  | none => { db with chunksVec := some ⟨dim, .empty⟩ }

/-- `INSERT OR REPLACE INTO meta (key, value) VALUES ('embedding_dim', ?1)`. -/
def writeDim (db : IndexDb) (dim : Nat) : IndexDb :=
  { db with metaTable := db.metaTable.replace ⟨"embedding_dim", Nat.repr dim⟩ }

end IndexDb

/-! ## Database operations -/

/-- Where a handler meets a failing statement, and the failure's text.  The recorded dimension
may not be read, with or without a failure after that. -/
inductive IndexFault where
  | task (message : String)
  | selectDim
  | selectDimThen (later : IndexFault)
  | createVecTable (message : String)
  | writeDim (message : String)
  | transaction (message : String)
deriving DecidableEq, Repr

/-- The recorded dimension is not read. -/
def unread : Option IndexFault → Bool
  | some .selectDim | some (.selectDimThen _) => true
  | _ => false

/-- The failure that is met once the recorded dimension has been asked for. -/
def afterDim : Option IndexFault → Option IndexFault
  | some .selectDim => none
  | some (.selectDimThen later) => some later
  | fault => fault

open IndexDb

/-- The recorded dimension as it is read: `.ok()` takes a failed `SELECT` for a missing row. -/
def readDim (db : IndexDb) (fault : Option IndexFault) : Option String :=
  if unread fault then none else db.storedDim

/-- Check the vector table against the dimension of an insert, creating the table
and recording the dimension at the first one. -/
def doEnsureVecReady (db : IndexDb) (dim : Nat) (fault : Option IndexFault) :
    Except IndexError Unit × IndexDb :=
  match readDim db fault with
  | some s =>
      match Decimal.parseBelow (2 ^ 64) s with
      | none => (.error (.dimensionMismatch 0 dim), db)
      | some storedDim =>
          if storedDim ≠ dim then (.error (.dimensionMismatch storedDim dim), db)
          else
            match afterDim fault with
            | some (.createVecTable message) => (.error (.sqlite (.failure message)), db)
            | _ => (.ok (), db.createVecTable dim)
  | none =>
      match afterDim fault with
      | some (.createVecTable message) => (.error (.sqlite (.failure message)), db)
      | some (.writeDim message) =>
          (.error (.sqlite (.failure message)), db.createVecTable dim)
      | _ => (.ok (), (db.createVecTable dim).writeDim dim)

/-- One round of the insert loop: the chunk row and its vector. -/
def insertChunkAt (msg : IndexInsert) (now : Int) (db : IndexDb) (entry : Chunk × Nat) :
    Except Sqlite.Error IndexDb := do
  let id := chunkId msg.path entry.2
  let db ← db.insertChunk ⟨nextRowid db.chunks.rows, id, msg.path, entry.1.startLine,
    entry.1.endLine, msg.model, entry.1.text, now⟩
  db.insertVec ⟨id, vecToBlob entry.1.embedding.values⟩

/-- The statements of the insert transaction. -/
def doInsert (db : IndexDb) (msg : IndexInsert) (now : Int) : Except Sqlite.Error IndexDb := do
  let db ← (db.chunkIds msg.path).foldlM deleteVec db
  let db := (db.deleteChunks msg.path).deleteFile msg.path
  let db ← db.insertFile ⟨msg.path, msg.source, asI64 msg.size, now⟩
  msg.chunks.zipIdx.foldlM (insertChunkAt msg now) db

/-- The statements of the delete transaction. -/
def doDelete (db : IndexDb) (path : String) : Except Sqlite.Error IndexDb := do
  let db ← (db.chunkIds path).foldlM deleteVec db
  pure ((db.deleteChunks path).deleteFile path)

/-- Run the statements as a transaction: a failure leaves the database as it was. -/
def transaction (db : IndexDb) (body : Except Sqlite.Error IndexDb)
    (fault : Option IndexFault) : Except IndexError Unit × IndexDb :=
  match fault with
  | some (.transaction message) => (.error (.sqlite (.failure message)), db)
  | _ =>
      match body with
      | .ok db' => (.ok (), db')
      | .error e => (.error (.sqlite e), db)

/-- `Handler<IndexInsert>`. -/
def handleInsert (db : IndexDb) (msg : IndexInsert) (now : Int) (fault : Option IndexFault) :
    Except IndexError Unit × IndexDb :=
  match fault with
  | some (.task message) => (.error (.taskJoin message), db)
  | _ =>
      match msg.chunks with
      | [] => transaction db (doInsert db msg now) (afterDim fault)
      | first :: _ =>
          match doEnsureVecReady db first.embedding.len fault with
          | (.error e, db') => (.error e, db')
          | (.ok (), db') => transaction db' (doInsert db' msg now) (afterDim fault)

/-- `Handler<IndexDelete>`. -/
def handleDelete (db : IndexDb) (path : String) (fault : Option IndexFault) :
    Except IndexError Unit × IndexDb :=
  match fault with
  | some (.task message) => (.error (.taskJoin message), db)
  | _ => transaction db (doDelete db path) fault

/-- `Indexer::open` on an existing file: the schema is there already, and the vector
table is rebuilt if a dimension is recorded. -/
def reopen (db : IndexDb) (fault : Option IndexFault) : Except IndexError Unit × IndexDb :=
  match readDim db fault with
  | none => (.ok (), db)
  | some s =>
      match Decimal.parseBelow (2 ^ 64) s with
      | none => (.ok (), db)
      | some dim =>
          match afterDim fault with
          | some (.createVecTable message) => (.error (.sqlite (.failure message)), db)
          | _ => (.ok (), db.createVecTable dim)

end Memory
end MemoryHub
