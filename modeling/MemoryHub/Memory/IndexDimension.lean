import MemoryHub.Memory.IndexImage

/-!
# An index of one dimension

Where every vector has the same dimension, no insert can be refused for what other inserts
have left: whether an index message succeeds can be read off the message and the statement
that fails, whatever the index holds.

Main results:

- Theorem `handleInsert_verdict`, `handleDelete_verdict`: what a message is answered with,
  and that the index stays of that dimension.
-/

namespace MemoryHub
namespace Memory

open IndexDb

/-- The tables are the image of a map, and no dimension but `dim` is recorded or declared. -/
structure OfDimension (dim : Nat) (db : IndexDb) : Prop where
  image : ∃ m, Image m db
  recorded : ∀ s, db.storedDim = some s → s = Nat.repr dim
  declared : ∀ d, db.vecDim = some d → d = dim

/-- What the statements of an insert of vectors of the index's dimension come to, where a failing
one is reached. -/
def statementVerdict (msg : IndexInsert) : Option IndexFault → Except IndexError Unit
  | some (.createVecTable message) | some (.writeDim message) =>
      if msg.chunks = [] then .ok () else .error (.sqlite (.failure message))
  | some (.transaction message) => .error (.sqlite (.failure message))
  | _ => .ok ()

/-- What an insert of vectors of the index's dimension is answered with. -/
def insertVerdict (msg : IndexInsert) (fault : Option IndexFault) : Except IndexError Unit :=
  match fault with
  | some (.task message) => .error (.taskJoin message)
  | _ => statementVerdict msg (afterDim fault)

/-- What a delete is answered with. -/
def deleteVerdict : Option IndexFault → Except IndexError Unit
  | some (.task message) => .error (.taskJoin message)
  | some (.transaction message) => .error (.sqlite (.failure message))
  | _ => .ok ()

variable {m : String → Option Entry} {db : IndexDb} {dim : Nat}

/-- A new index is of any dimension. -/
theorem ofDimension_fresh (dim : Nat) : OfDimension dim .fresh where
  image := ⟨_, image_fresh⟩
  recorded := by simp [fresh, storedDim]
  declared := by simp [fresh, vecDim]

/-- Tables that record and declare the same are of the same dimension. -/
theorem OfDimension.of_eq (h : OfDimension dim db) {db' : IndexDb} (himage : ∃ m, Image m db')
    (hvec : db'.vecDim = db.vecDim) (hstored : db'.storedDim = db.storedDim) :
    OfDimension dim db' where
  image := himage
  recorded := by
    rw [hstored]
    exact h.recorded
  declared := by
    rw [hvec]
    exact h.declared

/-! ## The vector table -/

/-- After the table is created, it is of that dimension. -/
theorem OfDimension.createVecTable (h : OfDimension dim db) :
    OfDimension dim (db.createVecTable dim) ∧ (db.createVecTable dim).vecDim = some dim := by
  have hdim : (db.createVecTable dim).vecDim = some dim := by
    cases hvec : db.chunksVec with
    | none => simp [IndexDb.createVecTable, vecDim, hvec]
    | some vec =>
        have hdeclared : vec.dim = dim := h.declared vec.dim (by simp [vecDim, hvec])
        simp [IndexDb.createVecTable, vecDim, hvec, hdeclared]
  refine ⟨⟨?_, ?_, ?_⟩, hdim⟩
  · rcases h.image with ⟨m, himage⟩
    exact ⟨m, createVecTable_image himage dim⟩
  · rw [storedDim_createVecTable]
    exact h.recorded
  · intro d hd
    rw [hdim] at hd
    exact (Option.some.inj hd).symm

/-- The check of an insert of the index's dimension: it passes unless the table cannot be
created, or the dimension cannot be written where none has been read; the index stays of that
dimension. -/
theorem doEnsureVecReady_cases (h : OfDimension dim db) (hdim : dim < 2 ^ 64)
    (fault : Option IndexFault) :
    (∃ message db', doEnsureVecReady db dim fault = (.error (.sqlite (.failure message)), db') ∧
        OfDimension dim db' ∧ (afterDim fault = some (.createVecTable message) ∨
          afterDim fault = some (.writeDim message))) ∨
      ((∀ message, afterDim fault ≠ some (.createVecTable message)) ∧
        (unread fault = true → ∀ message, afterDim fault ≠ some (.writeDim message)) ∧
        ∃ db', doEnsureVecReady db dim fault = (.ok (), db') ∧ OfDimension dim db' ∧
          db'.vecDim = some dim) := by
  rcases h.createVecTable with ⟨hcreated, hdeclared⟩
  unfold doEnsureVecReady
  cases hread : readDim db fault with
  | some s =>
      have hknown : ¬ unread fault = true := by
        intro hunread
        rw [readDim, if_pos hunread] at hread
        contradiction
      rw [h.recorded s (storedDim_of_readDim hread)]
      simp only [Decimal.parseBelow_repr hdim, ne_eq, not_true_eq_false, if_false]
      split
      · rename_i message hcreate
        exact Or.inl ⟨message, db, rfl, h, Or.inl hcreate⟩
      · rename_i hnot
        exact Or.inr ⟨hnot, fun hunread => absurd hunread hknown, _, rfl, hcreated, hdeclared⟩
  | none =>
      simp only
      split
      · rename_i message hcreate
        exact Or.inl ⟨message, db, rfl, h, Or.inl hcreate⟩
      · rename_i message hwrite
        exact Or.inl ⟨message, _, rfl, hcreated, Or.inr hwrite⟩
      · rename_i hcreate hwrite
        refine Or.inr ⟨hcreate, fun _ => hwrite, _, rfl, ⟨?_, ?_, hcreated.declared⟩, hdeclared⟩
        · rcases hcreated.image with ⟨m, himage⟩
          exact ⟨m, writeDim_image himage hdim⟩
        · intro s hs
          rw [storedDim_writeDim] at hs
          exact (Option.some.inj hs).symm

/-! ## The insert loop -/

/-- A round of the insert loop with a vector of the table's dimension succeeds. -/
theorem insertChunkAt_succeeds (himage : Image m db) {msg : IndexInsert} (now : Int) {e : Entry}
    (c : Chunk) (hm : m msg.path = some e) (hvec : db.vecDim = some dim)
    (hlen : c.embedding.len = dim) :
    ∃ db', insertChunkAt msg now db (c, e.chunks.length) = .ok db' := by
  have hfresh := himage.chunkId_fresh hm
  rcases Option.map_eq_some_iff.mp hvec with ⟨vec, hsome, hvdim⟩
  have hvfresh : chunkId msg.path e.chunks.length ∉ vec.table.rows.map VecRow.chunkId := by
    have hvids := himage.vecIds
    simp only [vecRows, hsome] at hvids
    exact hvids ▸ hfresh
  have hblob : (vecToBlob c.embedding.values).length = 4 * vec.dim := by
    rw [length_vecToBlob, hvdim, ← hlen]
    rfl
  generalize hrow : (⟨nextRowid db.chunks.rows, chunkId msg.path e.chunks.length, msg.path,
    c.startLine, c.endLine, msg.model, c.text, now⟩ : ChunkRow) = row
  have hround : insertChunkAt msg now db (c, e.chunks.length) =
      (db.insertChunk row).bind fun db₁ =>
        db₁.insertVec ⟨row.id, vecToBlob c.embedding.values⟩ := by
    rw [← hrow]
    rfl
  have hid : chunkId msg.path e.chunks.length = row.id := by rw [← hrow]
  rw [hid] at hfresh hvfresh
  rcases Sqlite.Keyed.insert_of_not_mem row hfresh with ⟨chunks, hinsert, -⟩
  rcases Sqlite.Keyed.insert_of_not_mem (⟨row.id, vecToBlob c.embedding.values⟩ : VecRow) hvfresh
    with ⟨table, hvinsert, -⟩
  refine ⟨{ db with
    chunks := chunks
    chunksFts := db.chunksFts ++ [row.fts]
    chunksVec := some { vec with table := table } }, ?_⟩
  rw [hround]
  simp only [insertChunk, hinsert, Except.bind, insertVec, hsome, hblob, hvinsert, ne_eq,
    not_true_eq_false, if_false]

/-- The insert loop over vectors of the table's dimension succeeds. -/
theorem insertChunks_succeed {msg : IndexInsert} (now : Int) (cs : List Chunk) {e : Entry}
    (himage : Image m db) (hm : m msg.path = some e) (hmodel : e.model = msg.model)
    (hvec : cs ≠ [] → db.vecDim = some dim)
    (hlen : ∀ c ∈ cs, c.embedding.len = dim) :
    ∃ db' m', (cs.zipIdx e.chunks.length).foldlM (insertChunkAt msg now) db = .ok db' ∧
      Image m' db' ∧ db'.vecDim = db.vecDim ∧ db'.storedDim = db.storedDim := by
  induction cs generalizing m db e with
  | nil => exact ⟨db, m, rfl, himage, rfl, rfl⟩
  | cons c cs ih =>
      have hvec' := hvec (List.cons_ne_nil c cs)
      rcases insertChunkAt_succeeds himage now c hm hvec' (hlen c List.mem_cons_self) with
        ⟨db₁, hrun⟩
      rcases insertChunkAt_image himage now c hm hmodel hvec' with
        ⟨db₁', hrun', himage₁, hvec₁, hstored₁, -⟩ | ⟨text, herr⟩
      · rw [hrun] at hrun'
        cases hrun'
        have hnext : ({ e with chunks := e.chunks ++ [c] } : Entry).chunks.length =
            e.chunks.length + 1 := by simp
        rcases ih himage₁ (Function.update_self ..) hmodel (fun _ => hvec₁.trans hvec')
          (fun c hc => hlen c (List.mem_cons_of_mem _ hc)) with
          ⟨db', m', hfold, himage', hdims, hrecorded⟩
        rw [hnext] at hfold
        refine ⟨db', m', ?_, himage', hdims.trans hvec₁, hrecorded.trans hstored₁⟩
        rw [List.zipIdx_cons, List.foldlM_cons, hrun]
        exact hfold
      · rw [hrun] at herr
        contradiction

/-- The insert transaction of vectors of the index's dimension succeeds. -/
theorem doInsert_succeeds (h : OfDimension dim db) (msg : IndexInsert) (now : Int)
    (hready : msg.chunks ≠ [] → db.vecDim = some dim)
    (hlen : ∀ c ∈ msg.chunks, c.embedding.len = dim) :
    ∃ db', doInsert db msg now = .ok db' ∧ OfDimension dim db' := by
  rcases h.image with ⟨m, himage⟩
  rcases clear_image himage msg.path with ⟨db₁, hfold, hclear, hvec₁, hstored₁⟩
  rcases insertFile_image hclear msg.source msg.model msg.size now (Function.update_self ..)
    with ⟨db₂, hfile, himage₂, hvec₂, hstored₂⟩
  have hvec := hvec₂.trans hvec₁
  have hstored := hstored₂.trans hstored₁
  rcases insertChunks_succeed now msg.chunks himage₂ (Function.update_self ..) rfl
    (fun hne => hvec.trans (hready hne)) hlen with
    ⟨db', m', hloop, himage', hvec', hstored'⟩
  refine ⟨db', ?_, h.of_eq ⟨m', himage'⟩ (hvec'.trans hvec) (hstored'.trans hstored)⟩
  unfold doInsert
  rw [hfold]
  simp only [bind, Except.bind, hfile]
  exact hloop

/-! ## Messages -/

/-- What a transaction whose statements succeed comes to. -/
theorem transaction_verdict (h : OfDimension dim db) {db' : IndexDb} (h' : OfDimension dim db')
    {body : Except Sqlite.Error IndexDb} (hbody : body = .ok db') (fault : Option IndexFault) :
    OfDimension dim (transaction db body fault).2 ∧
      (∀ message, fault = some (.transaction message) →
        (transaction db body fault).1 = .error (.sqlite (.failure message))) ∧
      ((∀ message, fault ≠ some (.transaction message)) →
        (transaction db body fault).1 = .ok ()) := by
  unfold transaction
  split
  · rename_i message
    refine ⟨h, ?_, fun hnot => absurd rfl (hnot message)⟩
    intro message' hmessage
    cases hmessage
    rfl
  · rename_i hnot
    rw [hbody]
    exact ⟨h', fun message hmessage => absurd hmessage (hnot message), fun _ => rfl⟩

/-- The failure that is met is the fault itself, unless the dimension is not read. -/
theorem unread_of_afterDim {fault : Option IndexFault} {later : IndexFault}
    (h : afterDim fault = some later) : unread fault = true ∨ fault = some later := by
  unfold afterDim at h
  split at h
  · contradiction
  · exact Or.inl rfl
  · exact Or.inr h

/-- An index of one dimension stays so when such vectors are inserted, and the insert is
answered by its verdict unless recording the dimension fails. -/
theorem handleInsert_verdict (h : OfDimension dim db) (hdim : dim < 2 ^ 64) {msg : IndexInsert}
    (hlen : ∀ c ∈ msg.chunks, c.embedding.len = dim) (now : Int) (fault : Option IndexFault) :
    OfDimension dim (handleInsert db msg now fault).2 ∧
      ((∀ message, fault ≠ some (.writeDim message)) →
        (handleInsert db msg now fault).1 = insertVerdict msg fault) := by
  unfold handleInsert insertVerdict
  split
  · exact ⟨h, fun _ => rfl⟩
  · cases hchunks : msg.chunks with
    | nil =>
        rcases doInsert_succeeds h msg now (fun hne => absurd hchunks hne) hlen with
          ⟨db', hinsert, h'⟩
        rcases transaction_verdict h h' hinsert (afterDim fault) with ⟨hafter, hbad, hgood⟩
        refine ⟨hafter, fun _ => ?_⟩
        simp only
        unfold statementVerdict
        split <;> rename_i hfault
        · rw [hgood (by simp [hfault]), if_pos hchunks]
        · rw [hgood (by simp [hfault]), if_pos hchunks]
        · exact hbad _ hfault
        · exact hgood hfault
    | cons first rest =>
        have hne : msg.chunks ≠ [] := by
          rw [hchunks]
          exact List.cons_ne_nil first rest
        have hfirst : first.embedding.len = dim :=
          hlen first (by rw [hchunks]; exact List.mem_cons_self)
        simp only [hfirst]
        rcases doEnsureVecReady_cases h hdim fault with
          ⟨message, db₁, hensure, h₁, hfault⟩ | ⟨hcreate, hwrite, db₁, hensure, h₁, hvec⟩
        · rw [hensure]
          refine ⟨h₁, fun _ => ?_⟩
          rcases hfault with hfault | hfault <;>
            simp only [hfault, statementVerdict, if_neg hne]
        · rw [hensure]
          rcases doInsert_succeeds h₁ msg now (fun _ => hvec) hlen with ⟨db', hinsert, h'⟩
          rcases transaction_verdict h₁ h' hinsert (afterDim fault) with ⟨hafter, hbad, hgood⟩
          refine ⟨hafter, fun hnot => ?_⟩
          simp only
          unfold statementVerdict
          split <;> rename_i hfault
          · exact absurd hfault (hcreate _)
          · -- Only after an unread dimension can this be another fault than a failing record.
            rcases unread_of_afterDim hfault with hunread | hsame
            · exact absurd hfault (hwrite hunread _)
            · exact absurd hsame (hnot _)
          · exact hbad _ hfault
          · exact hgood hfault

/-- In an index of one dimension, a delete is answered by its verdict. -/
theorem handleDelete_verdict (h : OfDimension dim db) (path : String)
    (fault : Option IndexFault) :
    OfDimension dim (handleDelete db path fault).2 ∧
      (handleDelete db path fault).1 = deleteVerdict fault := by
  rcases h.image with ⟨m, himage⟩
  rcases clear_image himage path with ⟨db', hfold, hclear, hvec, hstored⟩
  have hdelete : doDelete db path = .ok ((db'.deleteChunks path).deleteFile path) := by
    unfold doDelete
    rw [hfold]
    rfl
  unfold handleDelete
  split
  · exact ⟨h, rfl⟩
  · rename_i htask
    rcases transaction_verdict h (h.of_eq ⟨_, hclear⟩ hvec hstored) hdelete fault with
      ⟨hafter, hbad, hgood⟩
    refine ⟨hafter, ?_⟩
    unfold deleteVerdict
    split
    · exact absurd rfl (htask _)
    · exact hbad _ rfl
    · rename_i hnot
      exact hgood hnot

end Memory
end MemoryHub
