import MemoryHub.Lib.Transaction
import MemoryHub.Memory.IndexImage

/-!
# Interrupted inserts

An `IndexInsert` one statement at a time.  Each statement can fail, and the process can die
between any two and open the index again.  The vector table and the dimension are written
before the transaction of the rows begins, so they stay where the rows do not.

Main results:

- Theorem `interruptedInsert_fault`: with the faults of the handler this is the handler.
- Theorem `interrupted_asBefore_iff`: when an insert that does not complete leaves the index
  as it was.
- Theorem `dimension_stays`: a first insert that dies before its rows and shuts out another
  dimension.
-/

namespace MemoryHub
namespace Memory

open Transaction

/-! ## Statements -/

/-- The statements of an insert.  Those of the rows go by their number. -/
inductive Statement where
  | selectDim
  | createVecTable
  | writeDim
  | beginTx
  | selectIds
  | deleteVec (i : Nat)
  | deleteChunks
  | deleteFile
  | insertFile
  | insertChunk (i : Nat)
  | insertVec (i : Nat)
  | commitTx
deriving DecidableEq

/-- The statements that a run of an insert does not get past. -/
abbrev Mishaps := Statement → Option (Mishap Sqlite.Error)

/-- A statement with what it does to the tables. -/
abbrev Update := Statement × (IndexDb → Except Sqlite.Error IndexDb)

/-- The stored dimension as `do_ensure_vec_ready` sees it: `.ok()` takes a failed `SELECT`
for a missing row. -/
def seenDim (mishap : Mishaps) (db : IndexDb) : Option String :=
  match mishap .selectDim with
  | some _ => none
  | none => db.storedDim

/-- What `do_ensure_vec_ready` executes once it has seen the stored dimension. -/
def vecStatements (seen : Option String) (dim : Nat) : Except IndexError (List Update) :=
  match seen with
  | some s =>
      match Decimal.parseBelow (2 ^ 64) s with
      | none => .error (.dimensionMismatch 0 dim)
      | some storedDim =>
          if storedDim ≠ dim then .error (.dimensionMismatch storedDim dim)
          else .ok [(.createVecTable, fun db => .ok (db.createVecTable dim))]
  | none =>
      .ok [(.createVecTable, fun db => .ok (db.createVecTable dim)),
        (.writeDim, fun db => .ok (db.writeDim dim))]

/-- The statements of one round of the insert loop. -/
def chunkStatements (msg : IndexInsert) (now : Int) (entry : Chunk × Nat) : List Update :=
  let id := chunkId msg.path entry.2
  [(.insertChunk entry.2, fun db => db.insertChunk ⟨nextRowid db.chunks.rows, id, msg.path,
      entry.1.startLine, entry.1.endLine, msg.model, entry.1.text, now⟩),
    (.insertVec entry.2, fun db => db.insertVec ⟨id, vecToBlob entry.1.embedding.values⟩)]

/-- The statements that take the old rows of a path out. -/
def clearStatements (db : IndexDb) (path : String) : List Update :=
  (.selectIds, .ok) ::
    ((db.chunkIds path).zipIdx.map fun c => (.deleteVec c.2, fun db => db.deleteVec c.1)) ++
    [(.deleteChunks, fun db => .ok (db.deleteChunks path)),
      (.deleteFile, fun db => .ok (db.deleteFile path))]

/-- The statements between `BEGIN` and `COMMIT`. -/
def rowStatements (db : IndexDb) (msg : IndexInsert) (now : Int) : List Update :=
  clearStatements db msg.path ++
    (.insertFile, fun db => db.insertFile ⟨msg.path, msg.source, asI64 msg.size, now⟩) ::
      msg.chunks.zipIdx.flatMap (chunkStatements msg now)

/-- How an insert ends. -/
inductive Ending where
  | completed
  | refused (e : IndexError)
  | died
deriving DecidableEq

/-- The ending, and the index it leaves; after a death it is opened again. -/
def conclude : Progress IndexDb Sqlite.Error → Ending × IndexDb
  | .ended c => (.completed, c.stored)
  | .stopped (.fails e) db => (.refused (.sqlite e), db)
  | .stopped .dies db => (.died, (reopen db none).2)

/-- `Handler<IndexInsert>`, statement by statement. -/
def interruptedInsert (mishap : Mishaps) (db : IndexDb) (msg : IndexInsert) (now : Int) :
    Ending × IndexDb :=
  let rows := atomically .beginTx .commitTx (rowStatements db msg now)
  match msg.chunks with
  | [] => conclude (execute mishap ⟨db, none⟩ rows)
  | first :: _ =>
      if mishap .selectDim = some .dies then (.died, (reopen db none).2)
      else
        match vecStatements (seenDim mishap db) first.embedding.len with
        | .error e => (.refused e, db)
        | .ok statements => conclude (execute mishap ⟨db, none⟩ (updates statements ++ rows))

/-! ## The statements of the rows -/

section Rows

variable {db : IndexDb} {msg : IndexInsert} {now : Int}

/-- The rounds of the insert loop, statement by statement. -/
theorem applyAll_chunkStatements (entries : List (Chunk × Nat)) :
    applyAll db (entries.flatMap (chunkStatements msg now)) =
      entries.foldlM (insertChunkAt msg now) db := by
  induction entries generalizing db with
  | nil => rfl
  | cons entry entries ih =>
      rw [List.flatMap_cons, applyAll_append, List.foldlM_cons]
      have hround : applyAll db (chunkStatements msg now entry) = insertChunkAt msg now db entry :=
        bind_congr fun d => bind_pure _
      rw [hround]
      cases insertChunkAt msg now db entry with
      | error e => rfl
      | ok d => exact ih

/-- Clearing a path is `do_delete`. -/
theorem applyAll_clearStatements (path : String) :
    applyAll db (clearStatements db path) = doDelete db path := by
  have hselect : applyAll db ((Statement.selectIds, .ok) :: (db.chunkIds path).zipIdx.map
      fun c => (Statement.deleteVec c.2, fun db : IndexDb => db.deleteVec c.1)) =
        (db.chunkIds path).foldlM IndexDb.deleteVec db := by
    conv_rhs => rw [← List.zipIdx_map_fst 0 (db.chunkIds path), List.foldlM_map]
    exact List.foldlM_map
  rw [clearStatements, applyAll_append, hselect]
  rfl

/-- The statements of the transaction are those of `do_insert`. -/
theorem applyAll_rowStatements :
    applyAll db (rowStatements db msg now) = doInsert db msg now := by
  rw [rowStatements, applyAll_append, applyAll_clearStatements]
  unfold doDelete doInsert
  cases (db.chunkIds msg.path).foldlM IndexDb.deleteVec db with
  | error e => rfl
  | ok d =>
      simp only [bind, Except.bind, pure, Except.pure, applyAll, List.foldlM_cons]
      cases ((d.deleteChunks msg.path).deleteFile msg.path).insertFile
          ⟨msg.path, msg.source, asI64 msg.size, now⟩ with
      | error e => rfl
      | ok d' => exact applyAll_chunkStatements _

/-- Another `meta` table beside the same rows. -/
def IndexDb.withMeta (db : IndexDb) (metaTable : Sqlite.Keyed MetaRow.key) : IndexDb :=
  { db with metaTable := metaTable }

/-- The statement works alike beside any `meta` table, and keeps the dimension of the vector
table. -/
def IgnoresMeta (statement : IndexDb → Except Sqlite.Error IndexDb) : Prop :=
  ∀ d d', statement d = .ok d' → ∀ metaTable,
    statement (d.withMeta metaTable) = .ok (d'.withMeta metaTable) ∧ d'.vecDim = d.vecDim

theorem deleteVec_ignoresMeta (id : String) : IgnoresMeta fun db => db.deleteVec id := by
  intro d d' h metaTable
  simp only [IndexDb.deleteVec] at h
  split at h <;> rename_i hvec
  · contradiction
  · cases h
    simp [IndexDb.deleteVec, IndexDb.withMeta, IndexDb.vecDim, hvec]

theorem insertFile_ignoresMeta (row : FileRow) : IgnoresMeta fun db => db.insertFile row := by
  intro d d' h metaTable
  simp only [IndexDb.insertFile] at h
  split at h <;> rename_i hinsert
  · cases h
    simp [IndexDb.insertFile, IndexDb.withMeta, IndexDb.vecDim, hinsert]
  · contradiction

/-- The row may depend on the chunks that are there. -/
theorem insertChunk_ignoresMeta (row : List ChunkRow → ChunkRow) :
    IgnoresMeta fun db => db.insertChunk (row db.chunks.rows) := by
  intro d d' h metaTable
  simp only [IndexDb.insertChunk] at h
  split at h <;> rename_i hinsert
  · cases h
    simp [IndexDb.insertChunk, IndexDb.withMeta, IndexDb.vecDim, hinsert]
  · contradiction

theorem insertVec_ignoresMeta (row : VecRow) : IgnoresMeta fun db => db.insertVec row := by
  intro d d' h metaTable
  cases htable : d.chunksVec with
  | none => simp [IndexDb.insertVec, htable] at h
  | some vec =>
      by_cases hdim : row.embedding.length = 4 * vec.dim
      · cases hinsert : vec.table.insert row with
        | error e => simp [IndexDb.insertVec, htable, hdim, hinsert] at h
        | ok table =>
            simp only [IndexDb.insertVec, htable, hdim, hinsert, ne_eq, not_true_eq_false,
              if_false, Except.ok.injEq] at h
            subst h
            simp [IndexDb.insertVec, IndexDb.withMeta, IndexDb.vecDim, htable, hdim, hinsert]
      · simp [IndexDb.insertVec, htable, hdim] at h

/-- What holds of every kind of statement holds of the statements of the rows. -/
theorem rowStatement_cases {P : Update → Prop} (hselect : P (.selectIds, .ok))
    (hdeleteVec : ∀ i id, P (.deleteVec i, fun db => db.deleteVec id))
    (hdeleteChunks : P (.deleteChunks, fun db => .ok (db.deleteChunks msg.path)))
    (hdeleteFile : P (.deleteFile, fun db => .ok (db.deleteFile msg.path)))
    (hinsertFile : ∀ row, P (.insertFile, fun db => db.insertFile row))
    (hinsertChunk : ∀ (i : Nat) (row : List ChunkRow → ChunkRow),
      P (.insertChunk i, fun db => db.insertChunk (row db.chunks.rows)))
    (hinsertVec : ∀ i row, P (.insertVec i, fun db => db.insertVec row))
    {u : Update} (hu : u ∈ rowStatements db msg now) : P u := by
  rw [rowStatements, List.mem_append, List.mem_cons, clearStatements, List.mem_append,
    List.mem_cons] at hu
  rcases hu with ((rfl | hu) | hu) | rfl | hu
  · exact hselect
  · rcases List.mem_map.mp hu with ⟨c, -, rfl⟩
    exact hdeleteVec c.2 c.1
  · simp only [List.mem_cons, List.not_mem_nil, or_false] at hu
    rcases hu with rfl | rfl
    · exact hdeleteChunks
    · exact hdeleteFile
  · exact hinsertFile _
  · rcases List.mem_flatMap.mp hu with ⟨entry, -, hu⟩
    simp only [chunkStatements, List.mem_cons, List.not_mem_nil, or_false] at hu
    rcases hu with rfl | rfl
    · exact hinsertChunk entry.2 fun rows => ⟨nextRowid rows, _, _, _, _, _, _, _⟩
    · exact hinsertVec entry.2 _

/-- The statements of the rows work alike beside any `meta` table. -/
theorem rowStatement_ignoresMeta {u : Update} (hu : u ∈ rowStatements db msg now) :
    IgnoresMeta u.2 := by
  have hplain : ∀ change : IndexDb → IndexDb,
      (∀ d metaTable, change (d.withMeta metaTable) = (change d).withMeta metaTable) →
        (∀ d, (change d).vecDim = d.vecDim) → IgnoresMeta fun db => .ok (change db) := by
    intro change hmeta hdim d d' h metaTable
    cases h
    exact ⟨congrArg Except.ok (hmeta d metaTable), hdim d⟩
  refine rowStatement_cases (P := fun u => IgnoresMeta u.2) ?_ ?_ ?_ ?_ ?_ ?_ ?_ hu
  · exact hplain id (fun _ _ => rfl) fun _ => rfl
  · exact fun _ id => deleteVec_ignoresMeta id
  · exact hplain (·.deleteChunks msg.path) (fun _ _ => rfl) fun _ => rfl
  · exact hplain (·.deleteFile msg.path) (fun _ _ => rfl) fun _ => rfl
  · exact fun row => insertFile_ignoresMeta row
  · exact fun _ row => insertChunk_ignoresMeta row
  · exact fun _ row => insertVec_ignoresMeta row

/-- The insert transaction works alike beside any `meta` table. -/
theorem doInsert_withMeta {db' : IndexDb} (h : doInsert db msg now = .ok db')
    (metaTable : Sqlite.Keyed MetaRow.key) :
    doInsert (db.withMeta metaTable) msg now = .ok (db'.withMeta metaTable) := by
  rw [← applyAll_rowStatements] at h
  have hsimulates : ∀ u ∈ rowStatements db msg now, ∀ s t s' : IndexDb,
      t = s.withMeta metaTable → u.2 s = .ok s' →
        ∃ t', u.2 t = .ok t' ∧ t' = s'.withMeta metaTable := by
    rintro u hu s _ s' rfl hs
    exact ⟨_, (rowStatement_ignoresMeta hu _ _ hs metaTable).1, rfl⟩
  rcases applyAll_simulates hsimulates rfl h with ⟨_, hall, rfl⟩
  rw [← applyAll_rowStatements]
  exact hall

/-- Statements of the rows leave the `meta` table and the dimension of the vector table. -/
theorem rowStatements_keep {script : List Update} (hscript : script ⊆ rowStatements db msg now)
    {d d' : IndexDb} (h : applyAll d script = .ok d') :
    d'.metaTable = d.metaTable ∧ d'.vecDim = d.vecDim := by
  refine applyAll_invariant
    (I := fun s => s.metaTable = d.metaTable ∧ s.vecDim = d.vecDim) ?_ ⟨rfl, rfl⟩ h
  rintro u hu s s' ⟨hmeta, hdim⟩ hok
  rcases rowStatement_ignoresMeta (hscript hu) _ _ hok s.metaTable with ⟨hsame, hdim'⟩
  change u.2 s = _ at hsame
  rw [hok, Except.ok.injEq] at hsame
  refine ⟨?_, hdim'.trans hdim⟩
  rw [hsame]
  exact hmeta

end Rows

/-! ## The handler -/

/-- The statement at which a failure strikes that is met after the dimension has been asked for. -/
def laterMishaps (later : Option IndexFault) : Mishaps := fun statement =>
  match later, statement with
  | some (.createVecTable message), .createVecTable => some (.fails (.failure message))
  | some (.writeDim message), .writeDim => some (.fails (.failure message))
  | some (.transaction message), .beginTx => some (.fails (.failure message))
  | _, _ => none

/-- The statements at which a fault of the handler strikes. -/
def faultMishaps (fault : Option IndexFault) : Mishaps
  | .selectDim => if unread fault then some (.fails (.failure "unread")) else none
  | statement => laterMishaps (afterDim fault) statement

def Ending.ofReply : Except IndexError Unit → Ending
  | .ok () => .completed
  | .error e => .refused e

section Handler

variable {db : IndexDb} {msg : IndexInsert} {now : Int} {fault : Option IndexFault}

/-- The statements of the rows come after those of the vector table. -/
theorem rowStatement_label {u : Update} (hu : u ∈ rowStatements db msg now) :
    u.1 ≠ .selectDim ∧ u.1 ≠ .createVecTable ∧ u.1 ≠ .writeDim := by
  refine rowStatement_cases
    (P := fun u => u.1 ≠ .selectDim ∧ u.1 ≠ .createVecTable ∧ u.1 ≠ .writeDim)
    ?_ ?_ ?_ ?_ ?_ ?_ ?_ hu
  all_goals simp

/-- The transaction of the rows under a fault of the handler. -/
theorem conclude_rows (ready : IndexDb) (hids : ready.chunkIds msg.path = db.chunkIds msg.path) :
    conclude (execute (faultMishaps fault) ⟨ready, none⟩
      (atomically .beginTx .commitTx (rowStatements db msg now))) =
        (Ending.ofReply (transaction ready (doInsert ready msg now) (afterDim fault)).1,
          (transaction ready (doInsert ready msg now) (afterDim fault)).2) := by
  have hrows : rowStatements db msg now = rowStatements ready msg now := by
    rw [rowStatements, rowStatements, clearStatements, clearStatements, hids]
  rw [hrows]
  have hlater : ∀ s : Statement, s ≠ .selectDim →
      faultMishaps fault s = laterMishaps (afterDim fault) s := by
    intro s hselect
    cases s <;> first | rfl | exact absurd rfl hselect
  generalize afterDim fault = later at hlater ⊢
  by_cases hfault : ∃ message, later = some (.transaction message)
  · rcases hfault with ⟨message, rfl⟩
    simp only [atomically, List.cons_append, execute, hlater .beginTx (by simp), laterMishaps]
    rfl
  · have hquiet : ∀ s : Statement, s ≠ .selectDim → s ≠ .createVecTable → s ≠ .writeDim →
        faultMishaps fault s = none := by
      intro s hselect hcreate hwrite
      rw [hlater s hselect]
      unfold laterMishaps
      split <;> simp_all
    rw [execute_atomically_quiet (hquiet _ (by simp) (by simp) (by simp))
      (hquiet _ (by simp) (by simp) (by simp))
      (fun u hu => hquiet u.1 (rowStatement_label hu).1 (rowStatement_label hu).2.1
        (rowStatement_label hu).2.2), applyAll_rowStatements]
    have hcommit : ∀ body, transaction ready body later = transaction ready body none := by
      intro body
      unfold transaction
      split
      · exact absurd ⟨_, rfl⟩ hfault
      · rfl
    rw [hcommit]
    cases doInsert ready msg now with
    | ok after => rfl
    | error e => rfl

/-- The statements before the transaction are those of `do_ensure_vec_ready`. -/
theorem vecStatements_ready (dim : Nat) (rest : List (Statement × Command IndexDb Sqlite.Error)) :
    (match vecStatements (readDim db fault) dim with
      | .error e => (Ending.refused e, db)
      | .ok statements =>
          conclude (execute (faultMishaps fault) ⟨db, none⟩ (updates statements ++ rest))) =
      match doEnsureVecReady db dim fault with
      | (.error e, db') => (.refused e, db')
      | (.ok (), db') => conclude (execute (faultMishaps fault) ⟨db', none⟩ rest) := by
  have hcreate : faultMishaps fault .createVecTable =
      laterMishaps (afterDim fault) .createVecTable := rfl
  have hwrite : faultMishaps fault .writeDim = laterMishaps (afterDim fault) .writeDim := rfl
  unfold vecStatements doEnsureVecReady
  generalize afterDim fault = later at hcreate hwrite ⊢
  cases readDim db fault with
  | none =>
      rcases later with _ | (m | _ | _ | m | m | m) <;>
        simp only [updates, List.map_cons, List.map_nil, List.cons_append, List.nil_append,
          execute, hcreate, hwrite, laterMishaps, Connection.apply]
      all_goals rfl
  | some s =>
      simp only []
      cases Decimal.parseBelow (2 ^ 64) s with
      | none => rfl
      | some storedDim =>
          by_cases hdim : storedDim = dim
          · simp only [hdim, ne_eq, not_true_eq_false, if_false]
            rcases later with _ | (m | _ | _ | m | m | m) <;>
              simp only [updates, List.map_cons, List.map_nil, List.cons_append, List.nil_append,
                execute, hcreate, laterMishaps, Connection.apply]
            rfl
          · simp only [hdim, ne_eq, not_false_eq_true, if_true]

theorem chunkIds_doEnsureVecReady (db : IndexDb) (dim : Nat) (fault : Option IndexFault)
    (path : String) : (doEnsureVecReady db dim fault).2.chunkIds path = db.chunkIds path := by
  have hcreate : (db.createVecTable dim).chunkIds path = db.chunkIds path := by
    cases htable : db.chunksVec <;> simp [IndexDb.createVecTable, IndexDb.chunkIds, htable]
  unfold doEnsureVecReady
  split
  · split
    · rfl
    · split
      · rfl
      · split
        · rfl
        · exact hcreate
  · split
    · rfl
    · exact hcreate
    · exact hcreate

/-- Under the faults of the handler, the insert statement by statement is the handler. -/
theorem interruptedInsert_fault (htask : ∀ message, fault ≠ some (.task message)) :
    interruptedInsert (faultMishaps fault) db msg now =
      (Ending.ofReply (handleInsert db msg now fault).1, (handleInsert db msg now fault).2) := by
  have hselect : faultMishaps fault .selectDim ≠ some .dies := by
    simp only [faultMishaps]
    split <;> simp
  have hseen : seenDim (faultMishaps fault) db = readDim db fault := by
    simp only [seenDim, faultMishaps, readDim]
    cases unread fault <;> rfl
  have hhandle : handleInsert db msg now fault =
      match msg.chunks with
      | [] => transaction db (doInsert db msg now) (afterDim fault)
      | first :: _ =>
          match doEnsureVecReady db first.embedding.len fault with
          | (.error e, db') => (.error e, db')
          | (.ok (), db') => transaction db' (doInsert db' msg now) (afterDim fault) := by
    unfold handleInsert
    split
    · exact absurd rfl (htask _)
    · rfl
  rw [hhandle]
  unfold interruptedInsert
  cases hchunks : msg.chunks with
  | nil =>
      simp only []
      exact conclude_rows db rfl
  | cons first rest =>
      simp only [if_neg hselect, hseen]
      rw [vecStatements_ready]
      have hids := chunkIds_doEnsureVecReady db first.embedding.len fault
      rcases hready : doEnsureVecReady db first.embedding.len fault with ⟨result, ready⟩
      rw [hready] at hids
      cases result with
      | error e => rfl
      | ok _ => exact conclude_rows ready (hids msg.path)

end Handler

/-! ## Before the transaction -/

/-- The insert gets to create the vector table. -/
def CreatesTable (mishap : Mishaps) (db : IndexDb) (msg : IndexInsert) : Prop :=
  mishap .selectDim ≠ some .dies ∧ mishap .createVecTable = none ∧
    ∃ first ∈ msg.chunks.head?, ∃ statements,
      vecStatements (seenDim mishap db) first.embedding.len = .ok statements

/-- The insert gets to record its dimension. -/
def RecordsDim (mishap : Mishaps) (db : IndexDb) (msg : IndexInsert) : Prop :=
  CreatesTable mishap db msg ∧ seenDim mishap db = none ∧ mishap .writeDim = none

/-- A recorded dimension has its vector table, so reopening finds nothing to rebuild. -/
def IndexDb.Restored (db : IndexDb) : Prop :=
  db.chunksVec = none → db.storedDim = none

/-- The index after an ending: opened again after a death. -/
def Ending.leaves : Ending → IndexDb → IndexDb
  | .died, db => (reopen db none).2
  | _, db => db

section Cuts

variable {mishap : Mishaps} {db db' : IndexDb} {msg : IndexInsert} {now : Int} {ending : Ending}

theorem createVecTable_of_some {vec : VecTable} (h : db.chunksVec = some vec) (dim : Nat) :
    db.createVecTable dim = db := by
  simp only [IndexDb.createVecTable, h]

/-- The statements before the transaction create the table, and then record the dimension
if they have seen none. -/
theorem vecStatements_eq_ok {seen : Option String} {dim : Nat} {statements : List Update}
    (h : vecStatements seen dim = .ok statements) :
    statements = (.createVecTable, fun db => .ok (db.createVecTable dim)) ::
      if seen = none then [(.writeDim, fun db => .ok (db.writeDim dim))] else [] := by
  unfold vecStatements at h
  cases seen with
  | none =>
      cases h
      rfl
  | some s =>
      simp only [] at h
      split at h
      · contradiction
      · split at h
        · contradiction
        · cases h
          rfl

/-- How the execution of an insert can end once it has stored `before`: it stops there, or
the transaction of the rows commits. -/
def EndsFrom (script : List Update) (before : IndexDb) (p : Progress IndexDb Sqlite.Error) : Prop :=
  (∃ after, applyAll before script = .ok after ∧ p = .ended ⟨after, none⟩) ∨
    ∃ why, p = .stopped why before

/-- What the statements before the transaction have stored when an insert ends. -/
theorem execute_vecStatements {seen : Option String} {dim : Nat} {statements script : List Update}
    (hstatements : vecStatements seen dim = .ok statements) :
    ∃ before, EndsFrom script before
        (execute mishap ⟨db, none⟩ (updates statements ++ atomically .beginTx .commitTx script)) ∧
      ((mishap .createVecTable ≠ none ∧ before = db) ∨
        (mishap .createVecTable = none ∧
          ((¬ (seen = none ∧ mishap .writeDim = none) ∧ before = db.createVecTable dim) ∨
            ((seen = none ∧ mishap .writeDim = none) ∧
              before = (db.createVecTable dim).writeDim dim)))) := by
  rw [vecStatements_eq_ok hstatements]
  cases hcreate : mishap .createVecTable with
  | some why =>
      refine ⟨db, Or.inr ⟨why, ?_⟩, Or.inl ⟨by simp, rfl⟩⟩
      simp only [updates, List.map_cons, List.cons_append, execute, hcreate]
  | none =>
      have hcreated : execute mishap ⟨db, none⟩ (updates ((.createVecTable, fun db =>
          .ok (db.createVecTable dim)) ::
            if seen = none then [(.writeDim, fun db => .ok (db.writeDim dim))] else []) ++
              atomically .beginTx .commitTx script) =
          execute mishap ⟨db.createVecTable dim, none⟩
            (updates (if seen = none then [(.writeDim, fun db => .ok (db.writeDim dim))] else []) ++
              atomically .beginTx .commitTx script) :=
        execute_cons hcreate rfl
      rw [hcreated]
      by_cases hseen : seen = none
      · rw [if_pos hseen]
        cases hwrite : mishap .writeDim with
        | some why =>
            refine ⟨db.createVecTable dim, Or.inr ⟨why, ?_⟩, Or.inr ⟨rfl, Or.inl ⟨by simp, rfl⟩⟩⟩
            simp only [updates, List.map_cons, List.cons_append, execute, hwrite]
        | none =>
            have hwritten : execute mishap ⟨db.createVecTable dim, none⟩
                (updates [(.writeDim, fun db => .ok (db.writeDim dim))] ++
                  atomically .beginTx .commitTx script) =
                execute mishap ⟨(db.createVecTable dim).writeDim dim, none⟩
                  (atomically .beginTx .commitTx script) :=
              execute_cons hwrite rfl
            rw [hwritten]
            exact ⟨_, execute_atomically _ _ script _, Or.inr ⟨rfl, Or.inr ⟨⟨hseen, rfl⟩, rfl⟩⟩⟩
      · rw [if_neg hseen]
        exact ⟨_, execute_atomically _ _ script _,
          Or.inr ⟨rfl, Or.inl ⟨fun hrecords => hseen hrecords.1, rfl⟩⟩⟩

theorem conclude_cases {script : List Update} {before : IndexDb}
    {p : Progress IndexDb Sqlite.Error} (hends : EndsFrom script before p)
    (h : conclude p = (ending, db')) :
    (ending = .completed ∧ applyAll before script = .ok db') ∨
      (ending ≠ .completed ∧ db' = ending.leaves before) := by
  rcases hends with ⟨after, hall, rfl⟩ | ⟨why, rfl⟩
  · cases h
    exact Or.inl ⟨rfl, hall⟩
  · cases why with
    | fails e =>
        cases h
        exact Or.inr ⟨by simp, rfl⟩
    | dies =>
        cases h
        exact Or.inr ⟨by simp, rfl⟩

/-- What is stored before the rows: nothing new, the vector table, or table and dimension. -/
def StoredFirst (mishap : Mishaps) (db : IndexDb) (msg : IndexInsert) (before : IndexDb) : Prop :=
  (¬ CreatesTable mishap db msg ∧ before = db) ∨
    ∃ first ∈ msg.chunks.head?, CreatesTable mishap db msg ∧
      ((¬ RecordsDim mishap db msg ∧ before = db.createVecTable first.embedding.len) ∨
        (RecordsDim mishap db msg ∧ before = (db.createVecTable first.embedding.len).writeDim
          first.embedding.len))

/-- An insert stores its rows, or only what comes before them. -/
theorem interruptedInsert_cases (h : interruptedInsert mishap db msg now = (ending, db')) :
    ∃ before, StoredFirst mishap db msg before ∧
      ((ending = .completed ∧ applyAll before (rowStatements db msg now) = .ok db') ∨
        (ending ≠ .completed ∧ db' = ending.leaves before)) := by
  unfold interruptedInsert at h
  cases hchunks : msg.chunks with
  | nil =>
      simp only [hchunks] at h
      refine ⟨db, Or.inl ⟨by simp [CreatesTable, hchunks], rfl⟩, ?_⟩
      exact conclude_cases (execute_atomically _ _ _ _) h
  | cons first rest =>
      have hhead : first ∈ msg.chunks.head? := by simp [hchunks]
      simp only [hchunks] at h
      split at h <;> rename_i hselect
      · cases h
        refine ⟨db, Or.inl ⟨fun hcreates => hcreates.1 hselect, rfl⟩, Or.inr ⟨by simp, rfl⟩⟩
      · cases hstatements : vecStatements (seenDim mishap db) first.embedding.len with
        | error e =>
            simp only [hstatements] at h
            cases h
            refine ⟨db, Or.inl ⟨?_, rfl⟩, Or.inr ⟨by simp, rfl⟩⟩
            simp [CreatesTable, hchunks, hstatements]
        | ok statements =>
            simp only [hstatements] at h
            rcases @execute_vecStatements mishap db _ _ _ (rowStatements db msg now) hstatements
              with ⟨before, hends, hbefore⟩
            refine ⟨before, ?_, conclude_cases hends h⟩
            rcases hbefore with ⟨hcreate, rfl⟩ | ⟨hcreate, hbefore⟩
            · exact Or.inl ⟨fun hcreates => hcreate hcreates.2.1, rfl⟩
            · have hcreates : CreatesTable mishap db msg :=
                ⟨hselect, hcreate, first, hhead, statements, hstatements⟩
              refine Or.inr ⟨first, hhead, hcreates, ?_⟩
              rcases hbefore with ⟨hrecords, rfl⟩ | ⟨hrecords, rfl⟩
              · exact Or.inl ⟨fun hboth => hrecords hboth.2, rfl⟩
              · exact Or.inr ⟨⟨hcreates, hrecords⟩, rfl⟩

/-! ## Reopening -/

theorem restored_createVecTable (db : IndexDb) (dim : Nat) : (db.createVecTable dim).Restored := by
  intro hnone
  rcases exists_vecDim_createVecTable db dim with ⟨d, hd⟩
  simp [IndexDb.vecDim, hnone] at hd

/-- Reopening an index whose recorded dimension has its table changes nothing. -/
theorem reopen_restored (hrestored : db.Restored) (fault : Option IndexFault) :
    (reopen db fault).2 = db := by
  unfold reopen
  cases hread : readDim db fault with
  | none => rfl
  | some s =>
      cases htable : db.chunksVec with
      | none =>
          have hstored := storedDim_of_readDim hread
          rw [hrestored htable] at hstored
          contradiction
      | some vec =>
          simp only []
          split
          · rfl
          · split
            · rfl
            · exact createVecTable_of_some htable _

theorem leaves_restored (hrestored : db.Restored) (ending : Ending) : ending.leaves db = db := by
  cases ending with
  | completed | refused => rfl
  | died => exact reopen_restored hrestored none

/-- The same `meta` rows and vector table dimension are restored alike. -/
theorem restored_of_keeps (hrestored : db.Restored)
    (hkeeps : db'.metaTable = db.metaTable ∧ db'.vecDim = db.vecDim) : db'.Restored := by
  intro hnone
  have hvec : db.chunksVec = none := by
    have hdim := hkeeps.2
    rw [IndexDb.vecDim, hnone, Option.map_none] at hdim
    simpa [IndexDb.vecDim] using hdim.symm
  rw [IndexDb.storedDim, hkeeps.1]
  exact hrestored hvec

theorem StoredFirst.restored {before : IndexDb} (hstored : StoredFirst mishap db msg before)
    (hrestored : db.Restored) : before.Restored := by
  rcases hstored with ⟨-, rfl⟩ | ⟨first, -, -, ⟨-, rfl⟩ | ⟨-, rfl⟩⟩
  · exact hrestored
  · exact restored_createVecTable db _
  · intro hnone
    rcases exists_vecDim_createVecTable db first.embedding.len with ⟨d, hd⟩
    change (db.createVecTable first.embedding.len).chunksVec = none at hnone
    simp [IndexDb.vecDim, hnone] at hd

/-- An insert, however it ends, leaves a table to every recorded dimension. -/
theorem interruptedInsert_restored (hrestored : db.Restored)
    (h : interruptedInsert mishap db msg now = (ending, db')) : db'.Restored := by
  rcases interruptedInsert_cases h with ⟨before, hstored, ⟨-, hall⟩ | ⟨-, rfl⟩⟩
  · exact restored_of_keeps (hstored.restored hrestored)
      (rowStatements_keep (List.Subset.refl _) hall)
  · rw [leaves_restored (hstored.restored hrestored)]
    exact hstored.restored hrestored

end Cuts

/-! ## Runs -/

/-- An insert with its mishaps, a delete, or the index file being opened again. -/
inductive CutAction where
  | insert (mishap : Mishaps) (msg : IndexInsert) (now : Int)
  | delete (path : String) (fault : Option IndexFault)
  | reopen (fault : Option IndexFault)

def cutStep (db : IndexDb) : CutAction → Option IndexDb
  | .insert mishap msg now => some (interruptedInsert mishap db msg now).2
  | .delete path fault => some (handleDelete db path fault).2
  | .reopen fault => some (reopen db fault).2

theorem handleDelete_restored {db : IndexDb} (hrestored : db.Restored) (path : String)
    (fault : Option IndexFault) : (handleDelete db path fault).2.Restored := by
  unfold handleDelete transaction
  split
  · exact hrestored
  · split
    · exact hrestored
    · split <;> rename_i db' hdelete
      · rw [← applyAll_clearStatements] at hdelete
        -- Any insert at the path begins by clearing it.
        have hclear : clearStatements db path ⊆ rowStatements db ⟨path, "", 0, "", []⟩ 0 :=
          List.subset_append_left _ _
        exact restored_of_keeps hrestored (rowStatements_keep hclear hdelete)
      · exact hrestored

/-- In every state of the index a recorded dimension has its table. -/
theorem restored_of_run {actions : List CutAction} {db : IndexDb}
    (hrun : Machine.run cutStep .fresh actions = some db) : db.Restored := by
  refine Machine.run_invariant (I := IndexDb.Restored) ?_ (fun _ => rfl) hrun
  intro db action db' hrestored hstep
  cases action with
  | insert mishap msg now =>
      cases hstep
      exact interruptedInsert_restored hrestored rfl
  | delete path fault =>
      cases hstep
      exact handleDelete_restored hrestored path fault
  | reopen fault =>
      cases hstep
      rw [reopen_restored hrestored]
      exact hrestored

/-! ## All or nothing -/

/-- The tables are as they were, and every insert that was accepted still is. -/
structure AsBefore (db db' : IndexDb) : Prop where
  files : db'.files = db.files
  chunks : db'.chunks = db.chunks
  chunksFts : db'.chunksFts = db.chunksFts
  chunksVec : db'.chunksVec = db.chunksVec
  embeddingDim : db'.storedDim = db.storedDim
  accepts : ∀ msg now, (handleInsert db msg now none).1 = .ok () →
    (handleInsert db' msg now none).1 = .ok ()

section AllOrNothing

variable {db db' : IndexDb}

theorem createVecTable_withMeta (db : IndexDb) (metaTable : Sqlite.Keyed MetaRow.key) (dim : Nat) :
    (db.withMeta metaTable).createVecTable dim = (db.createVecTable dim).withMeta metaTable := by
  cases htable : db.chunksVec with
  | none => simp [IndexDb.createVecTable, IndexDb.withMeta, htable]
  | some vec => simp [IndexDb.createVecTable, IndexDb.withMeta, htable]

/-- The check before the rows passes alike beside a `meta` table with the same dimension. -/
theorem doEnsureVecReady_withMeta {metaTable : Sqlite.Keyed MetaRow.key}
    (hdim : (db.withMeta metaTable).storedDim = db.storedDim) {dim : Nat} {ready : IndexDb}
    (h : doEnsureVecReady db dim none = (.ok (), ready)) :
    ∃ metaTable', doEnsureVecReady (db.withMeta metaTable) dim none =
      (.ok (), ready.withMeta metaTable') := by
  have hread : ∀ d : IndexDb, readDim d none = d.storedDim := fun _ => rfl
  unfold doEnsureVecReady at h ⊢
  rw [hread] at h ⊢
  rw [hdim]
  cases hstored : db.storedDim with
  | none =>
      simp only [hstored] at h ⊢
      cases h
      rw [createVecTable_withMeta]
      exact ⟨_, rfl⟩
  | some s =>
      simp only [hstored] at h ⊢
      cases hparse : Decimal.parseBelow (2 ^ 64) s with
      | none =>
          simp only [hparse] at h
          cases h
      | some d =>
          by_cases hd : d = dim
          · simp only [hparse, hd, ne_eq, not_true_eq_false, if_false] at h ⊢
            cases h
            rw [createVecTable_withMeta]
            exact ⟨_, rfl⟩
          · simp only [hparse, hd, ne_eq, not_false_eq_true, if_true] at h
            cases h

theorem transaction_accepts {d d' : IndexDb} {msg : IndexInsert} {now : Int}
    {metaTable : Sqlite.Keyed MetaRow.key} (hd' : d' = d.withMeta metaTable)
    (h : (transaction d (doInsert d msg now) none).1 = .ok ()) :
    (transaction d' (doInsert d' msg now) none).1 = .ok () := by
  cases hinsert : doInsert d msg now with
  | error e => simp [transaction, hinsert] at h
  | ok after => simp [transaction, hd', doInsert_withMeta hinsert metaTable]

/-- Only the dimension of the `meta` table is looked at. -/
theorem asBefore_withMeta {metaTable : Sqlite.Keyed MetaRow.key}
    (hdim : (db.withMeta metaTable).storedDim = db.storedDim) :
    AsBefore db (db.withMeta metaTable) := by
  refine ⟨rfl, rfl, rfl, rfl, hdim, ?_⟩
  intro msg now h
  unfold handleInsert at h ⊢
  cases hchunks : msg.chunks with
  | nil =>
      simp only [hchunks] at h ⊢
      exact transaction_accepts rfl h
  | cons first rest =>
      simp only [hchunks] at h ⊢
      rcases hready : doEnsureVecReady db first.embedding.len none with ⟨result, ready⟩
      rw [hready] at h
      cases result with
      | error e => simp at h
      | ok _ =>
          rcases doEnsureVecReady_withMeta hdim hready with ⟨metaTable', hready'⟩
          rw [hready']
          exact transaction_accepts rfl h

/-- From every state of the index, an insert that does not complete leaves the index as it
was exactly if it does not create the vector table and records no dimension anew before its
rows. -/
theorem interrupted_asBefore_iff {actions : List CutAction}
    (hrun : Machine.run cutStep .fresh actions = some db) {mishap : Mishaps} {msg : IndexInsert}
    {now : Int} {ending : Ending} (h : interruptedInsert mishap db msg now = (ending, db'))
    (hcut : ending ≠ .completed) :
    AsBefore db db' ↔ (CreatesTable mishap db msg → db.chunksVec ≠ none) ∧
      ∀ first ∈ msg.chunks.head?, RecordsDim mishap db msg →
        db.storedDim = some (Nat.repr first.embedding.len) := by
  have hrestored := restored_of_run hrun
  rcases interruptedInsert_cases h with ⟨before, hstored, ⟨hdone, -⟩ | ⟨-, rfl⟩⟩
  · exact absurd hdone hcut
  · rw [leaves_restored (hstored.restored hrestored)]
    have hself : AsBefore db db := ⟨rfl, rfl, rfl, rfl, rfl, fun _ _ h => h⟩
    rcases hstored with ⟨hnot, rfl⟩ | ⟨first, hfirst, hcreates, hstored⟩
    · constructor
      · intro _
        exact ⟨fun hcreates => absurd hcreates hnot, fun _ _ hrecords => absurd hrecords.1 hnot⟩
      · intro _
        exact hself
    · cases htable : db.chunksVec with
      | none =>
          have hnew : before.chunksVec ≠ none := by
            rcases hstored with ⟨-, rfl⟩ | ⟨-, rfl⟩ <;>
              simp [IndexDb.createVecTable, IndexDb.writeDim, htable]
          constructor
          · intro hbefore
            exact absurd (hbefore.chunksVec.trans htable) hnew
          · intro hcond
            exact absurd rfl (hcond.1 hcreates)
      | some vec =>
          rw [createVecTable_of_some htable] at hstored
          rcases hstored with ⟨hrecords, rfl⟩ | ⟨hrecords, rfl⟩
          · constructor
            · intro _
              exact ⟨fun _ => by simp, fun _ _ hrecords' => absurd hrecords' hrecords⟩
            · intro _
              exact hself
          · have hdim := storedDim_writeDim db first.embedding.len
            constructor
            · intro hbefore
              refine ⟨fun _ => by simp, ?_⟩
              intro other hother _
              have heq : other = first := Option.some.inj (hother.symm.trans hfirst)
              rw [heq, ← hbefore.embeddingDim, hdim]
            · intro hcond
              exact asBefore_withMeta (hdim.trans (hcond.2 first hfirst hrecords).symm)

end AllOrNothing

/-- An insert of one chunk, of the given vector. -/
def insertOf (path : String) (values : List UInt32) (h : values.length < 2 ^ 64) : IndexInsert :=
  ⟨path, "raw", 1, "m", [⟨"x", 1, 1, ⟨values, h⟩⟩]⟩

/-- The process dies as it comes to `COMMIT`. -/
def diesAtCommit : Mishaps := fun statement =>
  if statement = .commitTx then some .dies else none

/-- With the dimension recorded, an insert that dies at its end leaves nothing. -/
theorem interrupted_asBefore_iff_second : ∃ db db',
    Machine.run cutStep .fresh [.insert (fun _ => none) (insertOf "u/a/p/x" [0] (by decide)) 0] =
        some db ∧
      interruptedInsert diesAtCommit db (insertOf "u/a/p/y" [1] (by decide)) 1 = (.died, db') ∧
      AsBefore db db' := by
  have hend : ∃ db, Machine.run cutStep .fresh
      [.insert (fun _ => none) (insertOf "u/a/p/x" [0] (by decide)) 0] = some db ∧
        db.vecDim = some 1 ∧ db.storedDim = some "1" ∧
        (interruptedInsert diesAtCommit db (insertOf "u/a/p/y" [1] (by decide)) 1).1 = .died :=
    ⟨_, rfl, by decide +kernel, by decide +kernel, by decide +kernel⟩
  rcases hend with ⟨db, hrun, hvec, hdim, hdied⟩
  rcases hcut : interruptedInsert diesAtCommit db (insertOf "u/a/p/y" [1] (by decide)) 1 with
    ⟨ending, db'⟩
  rw [hcut] at hdied
  cases hdied
  refine ⟨db, db', hrun, hcut, (interrupted_asBefore_iff hrun hcut (by simp)).mpr ⟨?_, ?_⟩⟩
  · intro _ hnone
    simp [IndexDb.vecDim, hnone] at hvec
  · intro first hfirst _
    cases hfirst
    exact hdim

/-- The process dies between creating the vector table and recording its dimension. -/
def diesAtDim : Mishaps := fun statement =>
  if statement = .writeDim then some .dies else none

/-- The first insert dies before its dimension is recorded.  The reopened index keeps the
table of that dimension and refuses an insert of another one, which the fresh index takes. -/
theorem dimension_stays : ∃ db',
    interruptedInsert diesAtDim .fresh (insertOf "u/a/p/x" [0] (by decide)) 0 = (.died, db') ∧
      IndexDb.fresh.vecDim = none ∧ db'.vecDim = some 1 ∧
      (handleInsert .fresh (insertOf "u/a/p/y" [0, 0] (by decide)) 1 none).1 = .ok () ∧
      (handleInsert db' (insertOf "u/a/p/y" [0, 0] (by decide)) 1 none).1 ≠ .ok () := by
  refine ⟨_, Prod.ext (by decide +kernel) rfl, rfl, by decide +kernel, by decide +kernel,
    by decide +kernel⟩

end Memory
end MemoryHub
