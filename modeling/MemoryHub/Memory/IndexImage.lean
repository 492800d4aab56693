import MemoryHub.Lib.Machine
import MemoryHub.Memory.Indexer
import Mathlib.Logic.Function.Basic

/-!
# The index as a map

What the index is for is a map from paths to entries.  `Image m db` says that the
tables of `db` are the image of the map `m`; every statement sequence of the
handlers is followed through it.

Main results:

- Theorem `clear_image`: clearing a path succeeds and unmaps it.
- Theorem `insertChunks_image`: the insert loop extends the entry by its chunks, or
  stops at a vector of another dimension.
- Theorem `handle_image`: a message that succeeds has its effect on the map, and one
  that fails has none.
- Theorem `image_of_run`: after any run of messages and reopenings the tables are the image of
  the map the successful messages build.
-/

namespace MemoryHub
namespace Memory

open Machine IndexDb

/-! ## The map -/

/-- What the index holds about one file. -/
structure Entry where
  source : String
  size : UInt64
  model : String
  chunks : List Chunk
deriving DecidableEq, Repr

/-- The entry an insert asks for. -/
def IndexInsert.entry (msg : IndexInsert) : Entry :=
  ⟨msg.source, msg.size, msg.model, msg.chunks⟩

/-- The columns of a chunk row that the message determines, apart from the path. -/
def ChunkRow.data (row : ChunkRow) : String × UInt32 × UInt32 × String × String :=
  (row.id, row.startLine, row.endLine, row.model, row.text)

/-- The chunk rows of an entry. -/
def chunkData (path : String) (e : Entry) : List (String × UInt32 × UInt32 × String × String) :=
  e.chunks.zipIdx.map fun c =>
    (chunkId path c.2, c.1.startLine, c.1.endLine, e.model, c.1.text)

/-- The vector rows of an entry. -/
def vecData (path : String) (e : Entry) : List VecRow :=
  e.chunks.zipIdx.map fun c => ⟨chunkId path c.2, vecToBlob c.1.embedding.values⟩

/-- The dimension the vector table was declared with. -/
def IndexDb.vecDim (db : IndexDb) : Option Nat :=
  db.chunksVec.map VecTable.dim

/-- The tables are the image of the map: one row of `files` for each mapped path, its
chunk rows in order, the full-text table a copy of `chunks`, and one vector of the
table's dimension for each chunk. -/
structure Image (m : String → Option Entry) (db : IndexDb) : Prop where
  files : ∀ path, (db.files.rows.filter fun r => r.path = path).map (fun r => (r.source, r.size)) =
    ((m path).map fun e => (e.source, asI64 e.size)).toList
  chunks : ∀ path, (db.chunks.rows.filter fun r => r.path = path).map ChunkRow.data =
    ((m path).map (chunkData path)).getD []
  rowids : db.chunks.rows.Pairwise fun r s => r.rowid < s.rowid
  fts : db.chunksFts = db.chunks.rows.map ChunkRow.fts
  vecIds : db.vecRows.map VecRow.chunkId = db.chunks.rows.map ChunkRow.id
  vectors : ∀ path, (db.vecRows.filter fun v => v.chunkId ∈ db.chunkIds path) =
    ((m path).map (vecData path)).getD []
  dims : ∀ v ∈ db.vecRows, ∃ dim, db.vecDim = some dim ∧ v.embedding.length = 4 * dim
  recorded : ∀ s, db.storedDim = some s → ∃ dim < 2 ^ 64, s = Nat.repr dim

/-! ## Ids -/

/-- The textual id determines the path and the number. -/
theorem chunkId_inj {p q : String} {i j : Nat} (h : chunkId p i = chunkId q j) : p = q ∧ i = j :=
  Decimal.append_numeral_inj (by decide) h

theorem mem_chunkIds {db : IndexDb} {path id : String} :
    id ∈ db.chunkIds path ↔ ∃ r ∈ db.chunks.rows, r.path = path ∧ r.id = id := by
  simp [chunkIds, and_assoc]

/-- A chunk row belongs to one path. -/
theorem path_eq_of_mem_chunkIds {db : IndexDb} {r : ChunkRow} {path : String}
    (hr : r ∈ db.chunks.rows) : r.id ∈ db.chunkIds path ↔ r.path = path := by
  rw [mem_chunkIds]
  constructor
  · intro h
    rcases h with ⟨s, hs, hpath, hid⟩
    rw [← Sqlite.eq_of_key_eq db.chunks.nodup hs hr hid]
    exact hpath
  · intro h
    exact ⟨r, hr, h, rfl⟩

section Image

variable {m : String → Option Entry} {db : IndexDb}

/-- Every chunk row is numbered within its entry. -/
theorem Image.id_eq (himage : Image m db) {r : ChunkRow} (hr : r ∈ db.chunks.rows) :
    ∃ e i, m r.path = some e ∧ i < e.chunks.length ∧ r.id = chunkId r.path i := by
  have hdata : r.data ∈ ((m r.path).map (chunkData r.path)).getD [] := by
    rw [← himage.chunks r.path]
    exact List.mem_map_of_mem (List.mem_filter.mpr ⟨hr, by simp⟩)
  cases hm : m r.path with
  | none => simp [hm] at hdata
  | some e =>
      rw [hm, Option.map_some, Option.getD_some] at hdata
      rcases List.mem_map.mp hdata with ⟨⟨c, i⟩, hc, heq⟩
      have hlt : i < e.chunks.length := by
        have hget := List.mem_zipIdx hc
        omega
      refine ⟨e, i, rfl, hlt, ?_⟩
      exact (congrArg Prod.fst heq).symm

/-- The next number of an entry is a fresh id. -/
theorem Image.chunkId_fresh (himage : Image m db) {path : String} {e : Entry}
    (hm : m path = some e) : chunkId path e.chunks.length ∉ db.chunks.rows.map ChunkRow.id := by
  intro hmem
  rcases List.mem_map.mp hmem with ⟨r, hr, hid⟩
  rcases himage.id_eq hr with ⟨e', i, hm', hlt, hid'⟩
  rw [hid'] at hid
  rcases chunkId_inj hid with ⟨hpath, hi⟩
  rw [hpath, hm] at hm'
  cases hm'
  omega

/-- An unmapped path has no row of `files`. -/
theorem Image.path_fresh (himage : Image m db) {path : String} (hm : m path = none) :
    path ∉ db.files.rows.map FileRow.path := by
  intro hmem
  rcases List.mem_map.mp hmem with ⟨r, hr, hpath⟩
  have hrows := himage.files path
  rw [hm, Option.map_none, Option.toList_none, List.map_eq_nil_iff,
    List.filter_eq_nil_iff] at hrows
  exact hrows r hr (by simpa using hpath)

/-- A mapped path has exactly one row of `files`. -/
theorem Image.file_eq (himage : Image m db) {path : String} {e : Entry} (hm : m path = some e) :
    ∃ row, (db.files.rows.filter fun r => r.path = path) = [row] ∧ row.source = e.source ∧
      row.size = asI64 e.size := by
  have hrows := himage.files path
  rw [hm, Option.map_some, Option.toList_some, List.map_eq_singleton_iff] at hrows
  rcases hrows with ⟨row, hrow, hdata⟩
  exact ⟨row, hrow, congrArg Prod.fst hdata, congrArg Prod.snd hdata⟩

/-- Chunks exist only beside the vector table. -/
theorem Image.chunkIds_of_no_vec (himage : Image m db) (hvec : db.chunksVec = none)
    (path : String) : db.chunkIds path = [] := by
  have hids := himage.vecIds
  have hnone : db.vecRows = [] := by simp [vecRows, hvec]
  rw [hnone, List.map_nil, eq_comm, List.map_eq_nil_iff] at hids
  simp [chunkIds, hids]

/-- The fresh database is the image of the empty map. -/
theorem image_fresh : Image (fun _ => none) IndexDb.fresh where
  files := by simp [fresh]
  chunks := by simp [fresh]
  rowids := by simp [fresh]
  fts := by simp [fresh]
  vecIds := by simp [fresh, vecRows]
  vectors := by simp [fresh, vecRows]
  dims := by simp [fresh, vecRows]
  recorded := by simp [fresh, storedDim]

/-! ## Clearing a path -/

/-- Deleting vectors by id takes exactly the listed ones out. -/
theorem foldlM_deleteVec {vec : VecTable} (hvec : db.chunksVec = some vec) (ids : List String) :
    ∃ table : Sqlite.Keyed VecRow.chunkId,
      table.rows = (vec.table.rows.filter fun v => v.chunkId ∉ ids) ∧
        ids.foldlM deleteVec db =
          .ok { db with chunksVec := some { vec with table := table } } := by
  induction ids generalizing db vec with
  | nil =>
      refine ⟨vec.table, by simp, ?_⟩
      rw [List.foldlM_nil, ← hvec]
      rfl
  | cons id ids ih =>
      have hdelete : db.deleteVec id = .ok { db with
          chunksVec := some { vec with table := vec.table.delete fun r => r.chunkId = id } } := by
        simp only [deleteVec, hvec]
      have hvec' : ({ db with chunksVec := some { vec with
          table := vec.table.delete fun r => r.chunkId = id } } : IndexDb).chunksVec =
            some { vec with table := vec.table.delete fun r => r.chunkId = id } :=
        rfl
      rcases ih hvec' with ⟨table, hrows, hfold⟩
      refine ⟨table, ?_, ?_⟩
      · rw [hrows, Sqlite.Keyed.rows_delete, List.filter_filter]
        apply List.filter_congr
        intro v _
        by_cases hid : v.chunkId = id
        · simp [hid]
        · simp [hid]
      · rw [List.foldlM_cons, hdelete]
        exact hfold

/-- The vector deletions of `do_insert` and `do_delete` succeed, and touch the vectors
of the path alone. -/
theorem Image.deleteVecs (himage : Image m db) (path : String) :
    ∃ db', (db.chunkIds path).foldlM deleteVec db = .ok db' ∧ db'.files = db.files ∧
      db'.chunks = db.chunks ∧ db'.chunksFts = db.chunksFts ∧ db'.metaTable = db.metaTable ∧
      db'.vecDim = db.vecDim ∧
      db'.vecRows = db.vecRows.filter fun v => v.chunkId ∉ db.chunkIds path := by
  cases hvec : db.chunksVec with
  | none =>
      rw [himage.chunkIds_of_no_vec hvec path]
      exact ⟨db, rfl, rfl, rfl, rfl, rfl, rfl, by simp [vecRows, hvec]⟩
  | some vec =>
      rcases foldlM_deleteVec hvec (db.chunkIds path) with ⟨table, hrows, hfold⟩
      exact ⟨_, hfold, rfl, rfl, rfl, rfl, by simp [vecDim, hvec], by simp [vecRows, hvec, hrows]⟩

/-- The full-text rows have distinct ids, like the chunks they mirror. -/
theorem nodup_map_fts (db : IndexDb) : (db.chunks.rows.map ChunkRow.fts).Nodup := by
  apply List.Nodup.of_map FtsRow.id
  rw [List.map_map]
  exact db.chunks.nodup

/-- Clearing a path succeeds and unmaps it. -/
theorem clear_image (himage : Image m db) (path : String) :
    ∃ db', (db.chunkIds path).foldlM deleteVec db = .ok db' ∧
      Image (Function.update m path none) ((db'.deleteChunks path).deleteFile path) ∧
      ((db'.deleteChunks path).deleteFile path).vecDim = db.vecDim ∧
      ((db'.deleteChunks path).deleteFile path).storedDim = db.storedDim := by
  rcases himage.deleteVecs path with ⟨db', hfold, hfiles, hchunks, hfts, hmeta, hdim, hvecs⟩
  have hstored : db'.storedDim = db.storedDim := by
    simp only [storedDim, hmeta]
  have hids : ∀ q, ((db'.deleteChunks path).deleteFile path).chunkIds q =
      if q = path then [] else db.chunkIds q := by
    intro q
    simp only [chunkIds, deleteFile, deleteChunks, Sqlite.Keyed.rows_delete, hchunks,
      Sqlite.filter_group_delete ChunkRow.path]
    split <;> rfl
  have hrows : ((db'.deleteChunks path).deleteFile path).vecRows =
      db.vecRows.filter fun v => v.chunkId ∉ db.chunkIds path := hvecs
  refine ⟨db', hfold, ?_, hdim, hstored⟩
  constructor
  · intro q
    simp only [deleteFile, deleteChunks, Sqlite.Keyed.rows_delete, hfiles,
      Sqlite.filter_group_delete FileRow.path, Function.update_apply]
    split
    · rfl
    · exact himage.files q
  · intro q
    simp only [deleteFile, deleteChunks, Sqlite.Keyed.rows_delete, hchunks,
      Sqlite.filter_group_delete ChunkRow.path, Function.update_apply]
    split
    · rfl
    · exact himage.chunks q
  · simp only [deleteFile, deleteChunks, Sqlite.Keyed.rows_delete, hchunks]
    exact himage.rowids.filter _
  · simp only [deleteFile, deleteChunks, Sqlite.Keyed.rows_delete, hchunks, hfts, himage.fts]
    exact Sqlite.foldl_erase_map (nodup_map_fts db) _
  · -- Both sides lose exactly the ids of the path.
    rw [hrows]
    have hleft := congrArg (List.filter fun id => id ∉ db.chunkIds path) himage.vecIds
    rw [List.filter_map, List.filter_map] at hleft
    apply hleft.trans
    simp only [deleteFile, deleteChunks, Sqlite.Keyed.rows_delete, hchunks]
    congr 1
    apply List.filter_congr
    intro r hr
    simp [path_eq_of_mem_chunkIds hr]
  · intro q
    rw [hrows, hids q, Function.update_apply]
    split <;> rename_i hq
    · simp
    · rw [List.filter_filter, ← himage.vectors q]
      apply List.filter_congr
      intro v _
      -- An id of another path is none of the deleted ones.
      by_cases hv : v.chunkId ∈ db.chunkIds q
      · have hnot : v.chunkId ∉ db.chunkIds path := by
          intro hmem
          rcases mem_chunkIds.mp hv with ⟨r, hr, hpath, hid⟩
          rw [← hid, path_eq_of_mem_chunkIds hr] at hmem
          exact hq (hpath.symm.trans hmem)
        simp [hv, hnot]
      · simp [hv]
  · intro v hv
    rw [hrows] at hv
    rcases himage.dims v (List.mem_filter.mp hv).1 with ⟨dim, hvd, hlen⟩
    exact ⟨dim, hdim.trans hvd, hlen⟩
  · intro s hs
    exact himage.recorded s (hstored.symm.trans hs)

/-- Clearing a path adds no vector. -/
theorem vecRows_clear_subset (himage : Image m db) {path : String} {db' : IndexDb}
    (h : (db.chunkIds path).foldlM deleteVec db = .ok db') :
    ((db'.deleteChunks path).deleteFile path).vecRows ⊆ db.vecRows := by
  rcases himage.deleteVecs path with ⟨db₁, hfold, -, -, -, -, -, hrows⟩
  rw [h] at hfold
  cases hfold
  change db'.vecRows ⊆ db.vecRows
  rw [hrows]
  exact List.filter_subset_self _

/-! ## Inserting -/

/-- The new row of `files` gives an unmapped path an entry without chunks. -/
theorem insertFile_image (himage : Image m db) {path : String} (source model : String)
    (size : UInt64) (now : Int) (hm : m path = none) :
    ∃ db', db.insertFile ⟨path, source, asI64 size, now⟩ = .ok db' ∧
      Image (Function.update m path (some ⟨source, size, model, []⟩)) db' ∧
      db'.vecDim = db.vecDim ∧ db'.storedDim = db.storedDim := by
  rcases Sqlite.Keyed.insert_of_not_mem ⟨path, source, asI64 size, now⟩
    (himage.path_fresh hm) with ⟨files, hinsert, hrows⟩
  refine ⟨{ db with files := files }, by simp [insertFile, hinsert], ?_, rfl, rfl⟩
  constructor
  · intro q
    rw [hrows, Sqlite.filter_group_snoc FileRow.path, Function.update_apply]
    by_cases hq : q = path
    · have hold := himage.files path
      rw [hm, Option.map_none, Option.toList_none, List.map_eq_nil_iff] at hold
      simp [hq, hold]
    · simpa [hq] using himage.files q
  · intro q
    rw [Function.update_apply]
    by_cases hq : q = path
    · have hold := himage.chunks path
      rw [hm, Option.map_none, Option.getD_none] at hold
      simpa [hq, chunkData] using hold
    · simpa [hq] using himage.chunks q
  · exact himage.rowids
  · exact himage.fts
  · exact himage.vecIds
  · intro q
    rw [Function.update_apply]
    by_cases hq : q = path
    · have hold := himage.vectors path
      rw [hm, Option.map_none, Option.getD_none] at hold
      rw [if_pos hq, hq]
      exact hold
    · rw [if_neg hq]
      exact himage.vectors q
  · exact himage.dims
  · exact himage.recorded

/-- A blob holds four bytes for each component. -/
theorem length_vecToBlob (v : List UInt32) : (vecToBlob v).length = 4 * v.length := by
  induction v with
  | nil => rfl
  | cons x v ih =>
      simp only [vecToBlob, List.flatMap_cons, List.length_append, toLeBytes, List.length_cons,
        List.length_nil] at ih ⊢
      omega

/-- Every rowid in use is below the next one. -/
theorem lt_nextRowid {rows : List ChunkRow} {r : ChunkRow} (hr : r ∈ rows) :
    r.rowid < nextRowid rows := by
  induction rows with
  | nil => simp at hr
  | cons s rows ih =>
      simp only [nextRowid, List.foldr_cons] at ih ⊢
      rcases List.mem_cons.mp hr with heq | hmem
      · rw [heq]
        omega
      · have := ih hmem
        omega

/-- Inserting a chunk row with a fresh id adds the id to its path. -/
theorem chunkIds_snoc {db' : IndexDb} {row : ChunkRow}
    (hrows : db'.chunks.rows = db.chunks.rows ++ [row]) (path : String) :
    db'.chunkIds path = db.chunkIds path ++ if path = row.path then [row.id] else [] := by
  simp only [chunkIds, hrows, Sqlite.filter_group_snoc ChunkRow.path, List.map_append]
  split <;> rfl

/-- Appending the next chunk of an entry, with its vector, extends the entry by it. -/
theorem Image.snoc (himage : Image m db) {db' : IndexDb} {path : String} {e : Entry} {c : Chunk}
    {row : ChunkRow} {dim : Nat} (hm : m path = some e) (hpath : row.path = path)
    (hdata : row.data =
      (chunkId path e.chunks.length, c.startLine, c.endLine, e.model, c.text))
    (hrowid : row.rowid = nextRowid db.chunks.rows) (hfiles : db'.files = db.files)
    (hchunks : db'.chunks.rows = db.chunks.rows ++ [row])
    (hfts : db'.chunksFts = db.chunksFts ++ [row.fts])
    (hvecs : db'.vecRows = db.vecRows ++ [⟨row.id, vecToBlob c.embedding.values⟩])
    (hvecDim : db'.vecDim = some dim) (hkeepDim : db'.vecDim = db.vecDim)
    (hkeepStored : db'.storedDim = db.storedDim) (hlen : c.embedding.len = dim) :
    Image (Function.update m path (some { e with chunks := e.chunks ++ [c] })) db' := by
  have hid : row.id = chunkId path e.chunks.length := congrArg Prod.fst hdata
  have hfresh : row.id ∉ db.chunks.rows.map ChunkRow.id := hid ▸ himage.chunkId_fresh hm
  constructor
  · intro q
    rw [hfiles, himage.files q, Function.update_apply]
    by_cases hq : q = path
    · rw [if_pos hq, hq, hm]
      rfl
    · rw [if_neg hq]
  · intro q
    rw [hchunks, Sqlite.filter_group_snoc ChunkRow.path, List.map_append, himage.chunks q, hpath,
      Function.update_apply]
    by_cases hq : q = path
    · simp [hq, hm, chunkData, List.zipIdx_append, hdata]
    · simp [hq]
  · rw [hchunks, List.pairwise_append]
    refine ⟨himage.rowids, List.pairwise_singleton _ _, ?_⟩
    intro r hr s hs
    rw [List.mem_singleton.mp hs, hrowid]
    exact lt_nextRowid hr
  · rw [hfts, hchunks, List.map_append, himage.fts, List.map_singleton]
  · rw [hvecs, hchunks, List.map_append, List.map_append, himage.vecIds]
    rfl
  · intro q
    rw [hvecs, chunkIds_snoc hchunks, hpath, Function.update_apply, List.filter_append]
    have hold : (db.vecRows.filter fun v =>
        decide (v.chunkId ∈ db.chunkIds q ++ if q = path then [row.id] else [])) =
          db.vecRows.filter fun v => decide (v.chunkId ∈ db.chunkIds q) := by
      apply List.filter_congr
      intro v hv
      -- The new id is not among the ids already in the table.
      have hne : v.chunkId ≠ row.id := by
        intro heq
        apply hfresh
        rw [← himage.vecIds, ← heq]
        exact List.mem_map_of_mem hv
      by_cases hq : q = path
      · simp [hq, hne]
      · simp [hq]
    rw [hold, himage.vectors q]
    by_cases hq : q = path
    · simp [hq, hm, vecData, List.zipIdx_append, hid]
    · have hnot : row.id ∉ db.chunkIds q := by
        intro hmem
        rcases mem_chunkIds.mp hmem with ⟨r, hr, -, hrid⟩
        exact hfresh (hrid ▸ List.mem_map_of_mem hr)
      simp [hq, hnot]
  · intro v hv
    rw [hvecs, List.mem_append, List.mem_singleton] at hv
    rcases hv with hv | hv
    · rw [hkeepDim]
      exact himage.dims v hv
    · refine ⟨dim, hvecDim, ?_⟩
      rw [hv, length_vecToBlob, ← hlen]
      rfl
  · intro s hs
    exact himage.recorded s (hkeepStored ▸ hs)

/-- One round of the insert loop extends the entry by its chunk, unless the vector has
another dimension than the table. -/
theorem insertChunkAt_image (himage : Image m db) {msg : IndexInsert} (now : Int) {e : Entry}
    (c : Chunk) {dim : Nat} (hm : m msg.path = some e) (hmodel : e.model = msg.model)
    (hvec : db.vecDim = some dim) :
    (∃ db', insertChunkAt msg now db (c, e.chunks.length) = .ok db' ∧
        Image (Function.update m msg.path (some { e with chunks := e.chunks ++ [c] })) db' ∧
        db'.vecDim = db.vecDim ∧ db'.storedDim = db.storedDim ∧ c.embedding.len = dim) ∨
      ∃ text, insertChunkAt msg now db (c, e.chunks.length) = .error (.failure text) := by
  have hfresh := himage.chunkId_fresh hm
  generalize hrow : (⟨nextRowid db.chunks.rows, chunkId msg.path e.chunks.length, msg.path,
    c.startLine, c.endLine, msg.model, c.text, now⟩ : ChunkRow) = row
  have hrowid : chunkId msg.path e.chunks.length = row.id := by rw [← hrow]
  have hround : insertChunkAt msg now db (c, e.chunks.length) =
      (db.insertChunk row).bind fun db₁ =>
        db₁.insertVec ⟨row.id, vecToBlob c.embedding.values⟩ := by
    rw [← hrow]
    rfl
  rw [hrowid] at hfresh
  rcases Sqlite.Keyed.insert_of_not_mem row hfresh with ⟨chunks, hinsert, hrows⟩
  rcases Option.map_eq_some_iff.mp hvec with ⟨vec, hsome, hvdim⟩
  have hlength := length_vecToBlob c.embedding.values
  by_cases hlen : c.embedding.len = dim
  · have hblob : (vecToBlob c.embedding.values).length = 4 * vec.dim := by
      rw [hlength, hvdim, ← hlen]
      rfl
    have hvfresh : row.id ∉ vec.table.rows.map VecRow.chunkId := by
      have hvids := himage.vecIds
      simp only [vecRows, hsome] at hvids
      exact hvids ▸ hfresh
    rcases Sqlite.Keyed.insert_of_not_mem (⟨row.id, vecToBlob c.embedding.values⟩ : VecRow) hvfresh
      with ⟨table, hvinsert, hvrows⟩
    have hrun : insertChunkAt msg now db (c, e.chunks.length) = .ok { db with
        chunks := chunks
        chunksFts := db.chunksFts ++ [row.fts]
        chunksVec := some { vec with table := table } } := by
      rw [hround]
      simp only [insertChunk, hinsert, Except.bind, insertVec, hsome, hblob, hvinsert, ne_eq,
        not_true_eq_false, if_false]
    have hkeep : some vec.dim = db.vecDim := by rw [hvec, hvdim]
    refine Or.inl ⟨_, hrun, ?_, hkeep, rfl, hlen⟩
    refine himage.snoc hm (by rw [← hrow]) (by rw [← hrow, hmodel]; rfl)
      (by rw [← hrow]) rfl hrows rfl ?_ (by rw [← hvdim]; rfl) hkeep rfl hlen
    simp [vecRows, hsome, hvrows]
  · have hblob : (vecToBlob c.embedding.values).length ≠ 4 * vec.dim := by
      unfold Embedding.len at hlen
      omega
    refine Or.inr ⟨"Dimension mismatch for inserted vector for the \"embedding\" column.", ?_⟩
    rw [hround]
    simp only [insertChunk, hinsert, Except.bind, insertVec, hsome]
    rw [if_pos hblob]

/-- The insert loop extends the entry by its chunks, or stops at a vector of another
dimension. -/
theorem insertChunks_image {msg : IndexInsert} (now : Int) {dim : Nat} (cs : List Chunk)
    {e : Entry} (himage : Image m db) (hm : m msg.path = some e) (hmodel : e.model = msg.model)
    (hvec : db.vecDim = some dim) :
    (∃ db', (cs.zipIdx e.chunks.length).foldlM (insertChunkAt msg now) db = .ok db' ∧
        Image (Function.update m msg.path (some { e with chunks := e.chunks ++ cs })) db' ∧
        db'.vecDim = db.vecDim ∧ db'.storedDim = db.storedDim ∧
        ∀ c ∈ cs, c.embedding.len = dim) ∨
      ∃ text, (cs.zipIdx e.chunks.length).foldlM (insertChunkAt msg now) db =
        .error (.failure text) := by
  induction cs generalizing m db e with
  | nil =>
      refine Or.inl ⟨db, rfl, ?_, rfl, rfl, fun c hc => absurd hc List.not_mem_nil⟩
      simpa [← hm] using himage
  | cons c cs ih =>
      rw [List.zipIdx_cons, List.foldlM_cons]
      rcases insertChunkAt_image himage now c hm hmodel hvec with
        ⟨db₁, hrun, himage₁, hvec₁, hstored₁, hfits⟩ | ⟨text, herr⟩
      · have hlen : ({ e with chunks := e.chunks ++ [c] } : Entry).chunks.length =
            e.chunks.length + 1 := by simp
        have hnext := ih himage₁ (Function.update_self ..) hmodel (hvec₁.trans hvec)
        simp only [Function.update_idem, List.append_assoc, List.cons_append,
          List.nil_append] at hnext
        rw [hlen] at hnext
        rw [hrun]
        rcases hnext with ⟨db', hrest, himage', hvec', hstored', hfit⟩ | herr
        · exact Or.inl ⟨db', hrest, himage', hvec'.trans hvec₁, hstored'.trans hstored₁,
            List.forall_mem_cons.mpr ⟨hfits, hfit⟩⟩
        · exact Or.inr herr
      · rw [herr]
        exact Or.inr ⟨text, rfl⟩

end Image

/-! ## The vector table -/

section VecTable

variable {m : String → Option Entry} {db : IndexDb}

/-- Creating the vector table, if it is missing, adds no vector. -/
theorem vecRows_createVecTable (db : IndexDb) (dim : Nat) :
    (db.createVecTable dim).vecRows = db.vecRows := by
  cases hvec : db.chunksVec with
  | none => simp [createVecTable, vecRows, hvec]
  | some vec => simp [createVecTable, vecRows, hvec]

/-- The vector table exists after it was created. -/
theorem exists_vecDim_createVecTable (db : IndexDb) (dim : Nat) :
    ∃ d, (db.createVecTable dim).vecDim = some d := by
  cases hvec : db.chunksVec with
  | none => exact ⟨dim, by simp [createVecTable, vecDim, hvec]⟩
  | some vec => exact ⟨vec.dim, by simp [createVecTable, vecDim, hvec]⟩

theorem storedDim_createVecTable (db : IndexDb) (dim : Nat) :
    (db.createVecTable dim).storedDim = db.storedDim := by
  cases hvec : db.chunksVec with
  | none => simp [createVecTable, storedDim, hvec]
  | some vec => simp [createVecTable, hvec]

theorem storedDim_writeDim (db : IndexDb) (dim : Nat) :
    (db.writeDim dim).storedDim = some (Nat.repr dim) := by
  have hnone : ((db.metaTable.rows.filter fun r => r.key ≠ "embedding_dim").find? fun r =>
      r.key = "embedding_dim") = none := by
    rw [List.find?_eq_none]
    intro r hr
    simpa using (List.mem_filter.mp hr).2
  simp only [storedDim, writeDim, Sqlite.Keyed.rows_replace, List.find?_append, hnone]
  rfl

/-- Creating the vector table keeps the image. -/
theorem createVecTable_image (himage : Image m db) (dim : Nat) :
    Image m (db.createVecTable dim) := by
  cases hvec : db.chunksVec with
  | some vec => simpa [createVecTable, hvec] using himage
  | none =>
      have hnil : db.vecRows = [] := by simp [vecRows, hvec]
      have hrows := vecRows_createVecTable db dim
      have hcreate : db.createVecTable dim = { db with chunksVec := some ⟨dim, .empty⟩ } := by
        simp [createVecTable, hvec]
      rw [hcreate] at hrows ⊢
      refine ⟨himage.files, himage.chunks, himage.rowids, himage.fts, ?_, ?_, ?_,
        himage.recorded⟩
      · rw [hrows]
        exact himage.vecIds
      · intro path
        rw [hrows]
        exact himage.vectors path
      · intro v hv
        rw [hrows, hnil] at hv
        simp at hv

/-- Recording a dimension keeps the image. -/
theorem writeDim_image (himage : Image m db) {dim : Nat} (hdim : dim < 2 ^ 64) :
    Image m (db.writeDim dim) := by
  refine ⟨himage.files, himage.chunks, himage.rowids, himage.fts, himage.vecIds,
    himage.vectors, himage.dims, ?_⟩
  intro s hs
  rw [storedDim_writeDim, Option.some.injEq] at hs
  exact ⟨dim, hdim, hs.symm⟩

/-- Errors that no message on a well-formed index meets: a used key or a missing
table. -/
def IndexError.isStructural : IndexError → Bool
  | .sqlite (.constraintViolation _) => true
  | .sqlite (.noSuchTable _) => true
  | _ => false

/-- What is read is recorded. -/
theorem storedDim_of_readDim {fault : Option IndexFault} {s : String}
    (h : readDim db fault = some s) : db.storedDim = some s := by
  unfold readDim at h
  split at h
  · contradiction
  · exact h

/-- The check of the vector table keeps the image.  When it passes, the table exists
and the dimension is the recorded one. -/
theorem doEnsureVecReady_image (himage : Image m db) {dim : Nat} (hdim : dim < 2 ^ 64)
    (fault : Option IndexFault) :
    ∃ result db', doEnsureVecReady db dim fault = (result, db') ∧ Image m db' ∧
      (∀ e, result = .error e → e.isStructural = false) ∧
      (result = .ok () →
        (∃ d, db'.vecDim = some d) ∧ db'.storedDim = some (Nat.repr dim)) := by
  have hcreate : Image m (db.createVecTable dim) := createVecTable_image himage dim
  have hexists := exists_vecDim_createVecTable db dim
  unfold doEnsureVecReady
  cases hread : readDim db fault with
  | some s =>
      have hstored := storedDim_of_readDim hread
      rcases himage.recorded s hstored with ⟨d, hd, rfl⟩
      simp only [Decimal.parseBelow_repr hd]
      by_cases heq : d = dim
      · subst heq
        simp only [ne_eq, not_true_eq_false, if_false]
        split
        · exact ⟨_, db, rfl, himage, by simp [IndexError.isStructural], by simp⟩
        · refine ⟨_, _, rfl, hcreate, by simp, fun _ => ⟨hexists, ?_⟩⟩
          rw [storedDim_createVecTable, hstored]
      · simp only [ne_eq, heq, not_false_eq_true, if_true]
        exact ⟨_, db, rfl, himage, by simp [IndexError.isStructural], by simp⟩
  | none =>
      simp only
      split
      · exact ⟨_, db, rfl, himage, by simp [IndexError.isStructural], by simp⟩
      · exact ⟨_, _, rfl, hcreate, by simp [IndexError.isStructural], by simp⟩
      · exact ⟨_, _, rfl, writeDim_image hcreate hdim, by simp,
          fun _ => ⟨hexists, storedDim_writeDim _ _⟩⟩

end VecTable

/-! ## Messages -/

section Messages

variable {m : String → Option Entry} {db : IndexDb}

/-- The delete transaction succeeds and unmaps the path. -/
theorem doDelete_image (himage : Image m db) (path : String) :
    ∃ db', doDelete db path = .ok db' ∧ Image (Function.update m path none) db' := by
  rcases clear_image himage path with ⟨db', hfold, hclear, -, -⟩
  refine ⟨(db'.deleteChunks path).deleteFile path, ?_, hclear⟩
  unfold doDelete
  rw [hfold]
  rfl

/-- A path has been given its new entry: the dimensions are kept, and every vector of it fits
the table. -/
structure Inserted (m : String → Option Entry) (msg : IndexInsert) (db db' : IndexDb) : Prop where
  image : Image (Function.update m msg.path (some msg.entry)) db'
  vecDim : db'.vecDim = db.vecDim
  storedDim : db'.storedDim = db.storedDim
  fits : ∀ c ∈ msg.chunks, db.vecDim = some c.embedding.len
  rows : msg.chunks = [] → db'.vecRows ⊆ db.vecRows

/-- The insert transaction maps the path to the new entry, or fails at a vector of
another dimension. -/
theorem doInsert_image (himage : Image m db) {msg : IndexInsert} (now : Int)
    (hready : msg.chunks ≠ [] → ∃ d, db.vecDim = some d) :
    (∃ db', doInsert db msg now = .ok db' ∧ Inserted m msg db db') ∨
      ∃ text, doInsert db msg now = .error (.failure text) := by
  rcases clear_image himage msg.path with ⟨db₁, hfold, hclear, hvec₁, hstored₁⟩
  rcases insertFile_image hclear msg.source msg.model msg.size now (Function.update_self ..)
    with ⟨db₂, hfile, himage₂, hvec₂, hstored₂⟩
  rw [Function.update_idem] at himage₂
  have hbody : doInsert db msg now = msg.chunks.zipIdx.foldlM (insertChunkAt msg now) db₂ := by
    unfold doInsert
    rw [hfold]
    simp only [bind, Except.bind, hfile]
  rw [hbody]
  have hvec := hvec₂.trans hvec₁
  have hstored := hstored₂.trans hstored₁
  by_cases hchunks : msg.chunks = []
  · refine Or.inl ⟨db₂, by rw [hchunks]; rfl, ?_, hvec, hstored, by simp [hchunks], fun _ => ?_⟩
    · simpa [IndexInsert.entry, hchunks] using himage₂
    · have hrows : db₂.vecRows = ((db₁.deleteChunks msg.path).deleteFile msg.path).vecRows := by
        unfold insertFile at hfile
        split at hfile
        · cases hfile
          rfl
        · contradiction
      rw [hrows]
      exact vecRows_clear_subset himage hfold
  · rcases hready hchunks with ⟨dim, hdim⟩
    have hloop := insertChunks_image now msg.chunks himage₂ (Function.update_self ..) rfl
      (hvec.trans hdim)
    simp only [Function.update_idem, List.nil_append, List.length_nil] at hloop
    rcases hloop with ⟨db', hrun, himage', hvec', hstored', hfit⟩ | herr
    · refine Or.inl ⟨db', hrun, himage', hvec'.trans hvec, hstored'.trans hstored, ?_,
        fun hnil => absurd hnil hchunks⟩
      intro c hc
      rw [hdim, hfit c hc]
    · exact Or.inr herr

/-- A transaction whose body succeeds commits, unless a statement fails. -/
theorem transaction_of_ok (db : IndexDb) {db' : IndexDb} {body : Except Sqlite.Error IndexDb}
    (h : body = .ok db') (fault : Option IndexFault) :
    transaction db body fault = (.ok (), db') ∨
      ∃ message, transaction db body fault = (.error (.sqlite (.failure message)), db) := by
  unfold transaction
  split
  · exact Or.inr ⟨_, rfl⟩
  · rw [h]
    exact Or.inl rfl

/-- A transaction whose body fails leaves the database as it was. -/
theorem transaction_of_error {text : String} {body : Except Sqlite.Error IndexDb}
    (h : body = .error (.failure text)) (fault : Option IndexFault) :
    ∃ message, transaction db body fault = (.error (.sqlite (.failure message)), db) := by
  unfold transaction
  split
  · exact ⟨_, rfl⟩
  · rw [h]
    exact ⟨text, rfl⟩

/-- The insert transaction on an index that is ready for it. -/
theorem insertTransaction_image (himage : Image m db) {msg : IndexInsert} (now : Int)
    (hready : msg.chunks ≠ [] → ∃ d, db.vecDim = some d) (fault : Option IndexFault) :
    (∃ db', transaction db (doInsert db msg now) fault = (.ok (), db') ∧
        Inserted m msg db db') ∨
      ∃ message, transaction db (doInsert db msg now) fault =
        (.error (.sqlite (.failure message)), db) := by
  rcases doInsert_image himage now hready with ⟨db', hok, hinserted⟩ | ⟨text, herr⟩
  · rcases transaction_of_ok db hok fault with hcommit | hfail
    · exact Or.inl ⟨db', hcommit, hinserted⟩
    · exact Or.inr hfail
  · exact Or.inr (transaction_of_error herr fault)

/-- A handled message: if it succeeds the tables follow the map's change, and if it
fails they are the image of the old map and the error is not structural. -/
def Handled (m m' : String → Option Entry) (r : Except IndexError Unit × IndexDb) : Prop :=
  (r.1 = .ok () ∧ Image m' r.2) ∨
    ∃ e, r.1 = .error e ∧ Image m r.2 ∧ e.isStructural = false

theorem handleInsert_image (himage : Image m db) (msg : IndexInsert) (now : Int)
    (fault : Option IndexFault) :
    Handled m (Function.update m msg.path (some msg.entry)) (handleInsert db msg now fault) := by
  unfold handleInsert
  split
  · exact Or.inr ⟨_, rfl, himage, rfl⟩
  · cases hchunks : msg.chunks with
    | nil =>
        have hready : msg.chunks ≠ [] → ∃ d, db.vecDim = some d := fun hne => absurd hchunks hne
        rcases insertTransaction_image himage now hready (afterDim fault) with
          ⟨db', hok, hinserted⟩ | ⟨_, herr⟩
        · simp only [hok]
          exact Or.inl ⟨rfl, hinserted.image⟩
        · simp only [herr]
          exact Or.inr ⟨_, rfl, himage, rfl⟩
    | cons first rest =>
        rcases doEnsureVecReady_image himage first.embedding.length_lt fault with
          ⟨result, db₁, hensure, himage₁, hbad, hgood⟩
        have hensure' : doEnsureVecReady db first.embedding.len fault = (result, db₁) := hensure
        cases result with
        | error e =>
            simp only [hensure']
            exact Or.inr ⟨e, rfl, himage₁, hbad e rfl⟩
        | ok _ =>
            simp only [hensure']
            have hready : msg.chunks ≠ [] → ∃ d, db₁.vecDim = some d := fun _ => (hgood rfl).1
            rcases insertTransaction_image himage₁ now hready (afterDim fault) with
              ⟨db', hok, hinserted⟩ | ⟨_, herr⟩
            · rw [hok]
              exact Or.inl ⟨rfl, hinserted.image⟩
            · rw [herr]
              exact Or.inr ⟨_, rfl, himage₁, rfl⟩

theorem handleDelete_image (himage : Image m db) (path : String) (fault : Option IndexFault) :
    Handled m (Function.update m path none) (handleDelete db path fault) := by
  unfold handleDelete
  split
  · exact Or.inr ⟨_, rfl, himage, rfl⟩
  · rcases doDelete_image himage path with ⟨db', hok, himage'⟩
    rcases transaction_of_ok db hok fault with hcommit | ⟨_, hfail⟩
    · rw [hcommit]
      exact Or.inl ⟨rfl, himage'⟩
    · rw [hfail]
      exact Or.inr ⟨_, rfl, himage, rfl⟩

theorem reopen_image (himage : Image m db) (fault : Option IndexFault) :
    Handled m m (reopen db fault) := by
  unfold reopen
  split
  · exact Or.inl ⟨rfl, himage⟩
  · split
    · exact Or.inl ⟨rfl, himage⟩
    · split
      · exact Or.inr ⟨_, rfl, himage, rfl⟩
      · exact Or.inl ⟨rfl, createVecTable_image himage _⟩

end Messages

/-! ## Runs -/

/-- A message to the indexer, or the index file being opened again. -/
inductive IndexAction where
  | insert (msg : IndexInsert) (now : Int) (fault : Option IndexFault)
  | delete (path : String) (fault : Option IndexFault)
  | reopen (fault : Option IndexFault)

/-- Handle an action on the tables. -/
def IndexDb.handle (db : IndexDb) : IndexAction → Except IndexError Unit × IndexDb
  | .insert msg now fault => handleInsert db msg now fault
  | .delete path fault => handleDelete db path fault
  | .reopen fault => Memory.reopen db fault

/-- What a successful action does to the map. -/
def IndexAction.effect (m : String → Option Entry) : IndexAction → String → Option Entry
  | .insert msg _ _ => Function.update m msg.path (some msg.entry)
  | .delete path _ => Function.update m path none
  | .reopen _ => m

/-- The tables, beside the map the successful actions have built. -/
structure IndexState where
  db : IndexDb
  mapped : String → Option Entry

/-- A fresh index and the empty map. -/
def IndexState.start : IndexState :=
  ⟨IndexDb.fresh, fun _ => none⟩

/-- One action on both. -/
def IndexState.step (s : IndexState) (action : IndexAction) : Option IndexState :=
  match s.db.handle action with
  | (.ok (), db) => some ⟨db, action.effect s.mapped⟩
  | (.error _, db) => some ⟨db, s.mapped⟩

theorem handle_image {m : String → Option Entry} {db : IndexDb} (himage : Image m db)
    (action : IndexAction) : Handled m (action.effect m) (db.handle action) := by
  cases action with
  | insert msg now fault => exact handleInsert_image himage msg now fault
  | delete path fault => exact handleDelete_image himage path fault
  | reopen fault => exact reopen_image himage fault

/-- One action keeps the tables the image of the map. -/
theorem image_step {s t : IndexState} {action : IndexAction} (himage : Image s.mapped s.db)
    (h : s.step action = some t) :
    Image t.mapped t.db := by
  have hhandled := handle_image himage action
  unfold IndexState.step at h
  rcases hr : s.db.handle action with ⟨result, db⟩
  rw [hr] at h hhandled
  cases result with
  | ok _ =>
      cases h
      rcases hhandled with ⟨-, himage'⟩ | ⟨e, herr, -⟩
      · exact himage'
      · contradiction
  | error e =>
      cases h
      rcases hhandled with ⟨hok, -⟩ | ⟨-, -, himage', -⟩
      · contradiction
      · exact himage'

/-- After any run the tables are the image of the map. -/
theorem image_of_run {actions : List IndexAction} {s : IndexState}
    (hrun : run IndexState.step .start actions = some s) : Image s.mapped s.db := by
  refine run_invariant (I := fun s => Image s.mapped s.db) ?_ image_fresh hrun
  intro s a t hs hstep
  exact image_step hs hstep

end Memory
end MemoryHub
